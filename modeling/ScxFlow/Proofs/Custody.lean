import ScxFlow.Lib.Potential
import ScxFlow.Lib.Shelf
import ScxFlow.Proofs.Routing
import ScxFlow.Proofs.Turns

/-!
# The custody of a task

From its enqueue until the kernel picks it or takes it off, a task waits in one queue.  An enqueue
adds one entry, a pass moves entries without adding or losing any, and a pick or a dequeue takes one
entry off; so over any order of turns the entries of a task are its enqueues less its removals
(`run_custody`), and where the kernel enqueues a task again only after taking it off, the task waits
in exactly one place, on a queue that exists (`run_waits_once`).
-/

namespace ScxFlow

variable {w : World} {k : Kernel} {p : TaskRef}

/-- The entry is one of the task's. -/
def Entry.isOf (p : TaskRef) (e : Entry) : Bool := decide (e.task = p)

/-- The entries of a task over all queues. -/
noncomputable def places (w : World) (p : TaskRef) : ℕ := Shelf.held w.dsq (Entry.isOf p)

/-- One for an enqueue of the task. -/
def joins (p : TaskRef) (_ : World) : Turn → ℕ
  | .call ⟨_, .enqueue q _⟩ => if q = p then 1 else 0
  | _ => 0

/-- One for a turn of the kernel that takes the task off the queue it waits in. -/
def leaves (p : TaskRef) (w : World) : Turn → ℕ
  | .pick cpu => ((w.dsq (scxLocalOn cpu)).take 1).countP (Entry.isOf p)
  | .dequeue q dsq => if q = p ∧ (w.dsq dsq).any (Entry.isOf p) then 1 else 0
  | _ => 0

section OneTurn

theorem countP_insert (pre post : List Entry) (x : Entry) (P : Entry → Bool) :
    (pre ++ x :: post).countP P = (pre ++ post).countP P + [x].countP P := by
  rw [List.countP_append, List.countP_cons, List.countP_append, List.countP_cons, List.countP_nil]
  omega

/-- A walk takes off its queue what it brings to the terminal one. -/
theorem Walked.countP_eq {cpu dsq : ℕ} {before after : List Entry} {new : List Visit}
    (h : Walked k cpu dsq before after new) :
    after.countP (Entry.isOf p) + (arrivals new).countP (Entry.isOf p)
      = before.countP (Entry.isOf p) := by
  cases h with
  | kept l rest hq ha =>
    rw [ha]
    simp [arrivals]
  | moved pre e post hq ha hok hpre =>
    have harr : arrivals (refused dsq pre ++ [⟨dsq, e, true⟩]) = [⟨e.task, 0⟩] := by
      simp [arrivals]
    rw [ha, hq, harr, countP_insert]
    rfl

theorem Stage.dsq_eq {cpu dsq : ℕ} {s s' : Pass} {new : List Visit}
    (h : Stage k cpu dsq s s' new) : s'.world.dsq
      = Function.update (Function.update s.world.dsq dsq (s'.world.dsq dsq)) (scxLocalOn cpu)
        (s.world.dsq (scxLocalOn cpu) ++ arrivals new) := by
  funext d
  by_cases ht : d = scxLocalOn cpu
  · rw [ht, Function.update_self, h.terminal]
  · rw [Function.update_of_ne ht]
    by_cases hd : d = dsq
    · rw [hd, Function.update_self]
    · rw [Function.update_of_ne hd, h.others d hd ht]

/-- A stage moves an entry from one queue to another. -/
theorem Stage.places_eq {cpu dsq : ℕ} {s s' : Pass} {new : List Visit}
    (hs : Stage k cpu dsq s s' new) (hlt : dsq < scxDsqLocalOn) (hf : Shelf.Finite s.world.dsq) :
    Shelf.Finite s'.world.dsq ∧ places s'.world p = places s.world p := by
  have hne : scxLocalOn cpu ≠ dsq := (scxLocalOn_ne hlt).symm
  have hwalk := hs.queue.countP_eq (p := p)
  have hqueue := Shelf.held_update (P := Entry.isOf p) hf dsq (s'.world.dsq dsq)
  have hterm := Shelf.held_update (P := Entry.isOf p) (hf.update dsq (s'.world.dsq dsq))
    (scxLocalOn cpu) (s.world.dsq (scxLocalOn cpu) ++ arrivals new)
  rw [Function.update_of_ne hne, List.countP_append] at hterm
  unfold places
  rw [hs.dsq_eq]
  exact ⟨(hf.update _ _).update _ _, by omega⟩

theorem Stages.places_eq {cpu : ℕ} {s s' : Pass} (h : Stages k cpu s s')
    (hf : Shelf.Finite s.world.dsq) :
    Shelf.Finite s'.world.dsq ∧ places s'.world p = places s.world p := by
  induction h with
  | refl => exact ⟨hf, rfl⟩
  | tail _ hstage ih =>
    obtain ⟨hfin, heq⟩ := ih
    obtain ⟨dsq, new, hlt, hs⟩ := hstage
    obtain ⟨hfin', heq'⟩ := hs.places_eq (p := p) hlt hfin
    exact ⟨hfin', heq'.trans heq⟩

theorem insertByKey_countP (P : Entry → Bool) (e : Entry) (l : List Entry) :
    (insertByKey e l).countP P = l.countP P + [e].countP P := by
  obtain ⟨pre, post, rfl, h⟩ := insertByKey_split e l
  rw [h, countP_insert]

/-- An insertion adds one entry of its task. -/
theorem perform_places {e : Effect} {dsq : ℕ} {q : TaskRef} (hd : e.insertedTo = some dsq)
    (hf : Shelf.Finite w.dsq) :
    Shelf.Finite (w.perform k q e).dsq
      ∧ places (w.perform k q e) p = places w p + if q = p then 1 else 0 := by
  have hone (key : UInt64) :
      [(⟨q, key⟩ : Entry)].countP (Entry.isOf p) = if q = p then 1 else 0 := by
    simp [Entry.isOf, List.countP_cons]
  cases e with
  | insertVtime d key flags =>
    have h := Shelf.held_update (P := Entry.isOf p) hf d (insertByKey ⟨q, key⟩ (w.dsq d))
    rw [insertByKey_countP, hone] at h
    refine ⟨hf.update _ _, ?_⟩
    show Shelf.held (Function.update w.dsq d _) _ = Shelf.held w.dsq _ + _
    omega
  | insert d flags =>
    have h := Shelf.held_update (P := Entry.isOf p) hf d (w.dsq d ++ [⟨q, 0⟩])
    rw [List.countP_append, hone] at h
    refine ⟨hf.update _ _, ?_⟩
    show Shelf.held (Function.update w.dsq d _) _ = Shelf.held w.dsq _ + _
    omega
  | _ => simp [Effect.insertedTo] at hd

theorem countP_tail (P : Entry → Bool) (l : List Entry) :
    l.tail.countP P + (l.take 1).countP P = l.countP P := by
  cases l with
  | nil => rfl
  | cons e l =>
    rw [List.tail_cons, List.take_succ_cons, List.take_zero, List.countP_cons, List.countP_cons,
      List.countP_nil]
    omega

theorem countP_dequeue (q : TaskRef) (l : List Entry) :
    (l.eraseP fun e => decide (e.task = q)).countP (Entry.isOf p)
        + (if q = p ∧ l.any (Entry.isOf p) then 1 else 0)
      = l.countP (Entry.isOf p) := by
  induction l with
  | nil => simp
  | cons e l ih =>
    by_cases he : e.task = q
    · by_cases hq : q = p
      · simp [he, hq, Entry.isOf]
      · simp [he, hq, Entry.isOf]
    · rw [List.eraseP_cons_of_neg (by simpa using he), List.countP_cons, List.countP_cons, ← ih]
      by_cases hq : q = p
      · have hep : Entry.isOf p e = false := by simpa [Entry.isOf, ← hq] using he
        simp [hq, hep]
      · simp [hq]

theorem joins_eq_zero {t : Turn} (ht : t.touches = false) : joins p w t = 0 := by
  cases t with
  | call c =>
    obtain ⟨k, op⟩ := c
    cases op with
    | enqueue q enqFlags => cases ht
    | _ => rfl
  | _ => rfl

theorem leaves_eq_zero {t : Turn} (ht : t.touches = false) : leaves p w t = 0 := by
  cases t with
  | pick cpu => cases ht
  | dequeue q dsq => cases ht
  | _ => rfl

/-- A turn takes off what it removes of a task's entries and adds what it enqueues. -/
theorem turn_places (t : Turn) (hf : Shelf.Finite w.dsq) :
    Shelf.Finite (core.step w t).dsq
      ∧ places (core.step w t) p + leaves p w t = places w p + joins p w t := by
  unfold places
  cases turn_queues w t with
  | kept ht h =>
    rw [h, joins_eq_zero ht, leaves_eq_zero ht]
    exact ⟨hf, rfl⟩
  | joined e dsq he hd hins h =>
    obtain ⟨hfin, heq⟩ := perform_places (p := p) hd hf
    rw [h]
    exact ⟨hfin, heq⟩
  | passed s hl hs hok hlog h =>
    obtain ⟨hfin, heq⟩ := hs.places_eq (p := p) hf
    rw [h]
    exact ⟨hfin, congrArg (· + 0) heq⟩
  | picked cpu =>
    have hq := Shelf.held_update (P := Entry.isOf p) hf (scxLocalOn cpu)
      (w.dsq (scxLocalOn cpu)).tail
    have ht := countP_tail (Entry.isOf p) (w.dsq (scxLocalOn cpu))
    refine ⟨hf.update _ _, ?_⟩
    show Shelf.held (Function.update w.dsq (scxLocalOn cpu) _) _
      + ((w.dsq (scxLocalOn cpu)).take 1).countP (Entry.isOf p) = _ + 0
    omega
  | dequeued q dsq =>
    have hq := Shelf.held_update (P := Entry.isOf p) hf dsq
      ((w.dsq dsq).eraseP fun e => decide (e.task = q))
    have ht := countP_dequeue (p := p) q (w.dsq dsq)
    refine ⟨hf.update _ _, ?_⟩
    show Shelf.held (Function.update w.dsq dsq _) _
      + (if q = p ∧ (w.dsq dsq).any (Entry.isOf p) then 1 else 0) = _ + 0
    omega

/-- Over any order of turns the entries of a task that remain are those that were there and those it
was enqueued with, less those the kernel took off. -/
theorem run_custody (w : World) (p : TaskRef) (ts : List Turn) (hf : Shelf.Finite w.dsq) :
    places (core.exec w ts) p + core.total (leaves p) w ts
      = places w p + core.total (joins p) w ts :=
  Machine.balance (I := fun w : World => Shelf.Finite w.dsq) (φ := fun w => places w p)
    (fun _ t _ h => (turn_places (p := p) t h).1) (fun _ t _ h => (turn_places t h).2)
    (core.along_of_forall (P := fun _ _ => True) (fun _ _ => trivial) w ts) hf

/-- Task 1 wakes behind task 0, which runs on CPU 0, and a pass of CPU 0 moves it over. -/
def wakeBehind : List Turn :=
  [.call ⟨Kernel.plain 500, .enqueue 0 0⟩, .pick 0, .call ⟨Kernel.plain 600, .running 0⟩,
    .call ⟨Kernel.plain 1000, .enqueue 1 0⟩, .call ⟨Kernel.plain 2000, .dispatch 0⟩]

theorem run_custody_wakeBehind : places (core.exec World.attached wakeBehind) 1
      + core.total (leaves 1) World.attached wakeBehind
    = places World.attached 1 + core.total (joins 1) World.attached wakeBehind :=
  run_custody World.attached 1 wakeBehind (Set.finite_empty.subset fun _ hd => hd rfl)

end OneTurn

section WaitsIn

theorem turn_counts (w : World) (t : Turn) : (core.step w t).counts = w.counts := by
  cases t with
  | call c => exact step_counts w c
  | select k cap p prevCpu =>
    refine List.foldl_observe World.counts w fun w e _ => ?_
    split
    · rfl
    · rw [flowCount_eq]
      rfl
  | seed rows =>
    refine List.foldl_observe World.counts w fun w row _ => ?_
    split
    · rfl
    · rfl
  | pick cpu => rfl
  | dequeue p dsq => rfl

theorem Touchable.of_counts {made : List ℕ} {w' : World} (h : w'.counts = w.counts) {dsq : ℕ}
    (ht : Touchable made w dsq) : Touchable made w' dsq := by
  rcases ht with ht | ⟨cpu, hl, ht⟩
  · exact Or.inl ht
  · have hlive : w'.nrCpuIds = w.nrCpuIds := (Prod.mk.inj h).1
    rw [flowCpuLive_iff, ← hlive, ← flowCpuLive_iff] at hl
    exact Or.inr ⟨cpu, hl, ht⟩

/-- Only queues the kernel knows hold tasks. -/
def OnKnown (made : List ℕ) (w : World) : Prop := ∀ dsq, w.dsq dsq ≠ [] → Touchable made w dsq

theorem Stage.ne_nil {cpu dsq d : ℕ} {s s' : Pass} {new : List Visit}
    (h : Stage k cpu dsq s s' new) (hd : s'.world.dsq d ≠ []) :
    s.world.dsq d ≠ [] ∨ d = scxLocalOn cpu := by
  by_cases ht : d = scxLocalOn cpu
  · exact Or.inr ht
  left
  by_cases hq : d = dsq
  · subst hq
    intro hnil
    cases h.queue with
    | kept l rest hq ha => exact hd (ha.trans hnil)
    | moved pre e post hq ha hok hpre => simp [hnil] at hq
  · rwa [h.others d hq ht] at hd

theorem Stages.ne_nil {cpu d : ℕ} {s s' : Pass} (h : Stages k cpu s s')
    (hd : s'.world.dsq d ≠ []) : s.world.dsq d ≠ [] ∨ d = scxLocalOn cpu := by
  induction h with
  | refl => exact Or.inl hd
  | tail _ hstage ih =>
    obtain ⟨dsq, new, -, hs⟩ := hstage
    rcases hs.ne_nil hd with hd | ht
    · exact ih hd
    · exact Or.inr ht

theorem perform_ne_nil {e : Effect} {dsq d : ℕ} (hd : e.insertedTo = some dsq)
    (h : (w.perform k p e).dsq d ≠ []) : w.dsq d ≠ [] ∨ d = dsq := by
  by_cases hq : d = dsq
  · exact Or.inr hq
  · exact Or.inl (by rwa [perform_dsq_other hd hq] at h)

theorem turn_onKnown {made : List ℕ} (t : Turn) (ha : Attached made w) (h : OnKnown made w) :
    OnKnown made (core.step w t) := by
  intro d hd
  refine Touchable.of_counts (turn_counts w t) ?_
  cases turn_queues w t with
  | kept ht hq => exact h d (by rwa [← hq])
  | joined e dsq he hi hins hq =>
    rw [hq] at hd
    rcases perform_ne_nil hi hd with hd | rfl
    · exact h d hd
    · exact ha.closed.enqueue _ _ _ d (by rw [hins]; exact List.mem_singleton.mpr rfl)
  | passed s hl hs hok hlog hq =>
    rw [hq] at hd
    rcases hs.ne_nil hd with hd | rfl
    · exact h d hd
    · exact Or.inr ⟨_, hl, rfl⟩
  | picked cpu =>
    refine h d fun hnil => hd ?_
    by_cases hc : d = scxLocalOn cpu
    · subst hc
      show Function.update w.dsq _ _ _ = []
      rw [Function.update_self, hnil, List.tail_nil]
    · exact (Function.update_of_ne hc _ _).trans hnil
  | dequeued p dsq =>
    refine h d fun hnil => hd ?_
    by_cases hc : d = dsq
    · subst hc
      show Function.update w.dsq _ _ _ = []
      rw [Function.update_self, hnil, List.eraseP_nil]
    · exact (Function.update_of_ne hc _ _).trans hnil

/-- The kernel enqueues the task again only after taking it off the queue it waits in. -/
def EnqueuedOnce (p : TaskRef) (w : World) (ts : List Turn) : Prop :=
  ∀ pre ∈ ts.inits, core.total (joins p) w pre ≤ core.total (leaves p) w pre + 1

instance EnqueuedOnce.decidable (p : TaskRef) (w : World) (ts : List Turn) :
    Decidable (EnqueuedOnce p w ts) :=
  inferInstanceAs (Decidable (∀ pre ∈ ts.inits, _ ≤ _))

/-- The task waits once, in this queue. -/
def WaitsIn (p : TaskRef) (w : World) (dsq : ℕ) : Prop :=
  (w.dsq dsq).countP (Entry.isOf p) = 1 ∧ ∀ d, d ≠ dsq → (w.dsq d).countP (Entry.isOf p) = 0

theorem waitsIn_of_places (hf : Shelf.Finite w.dsq) (h : places w p = 1) :
    ∃ dsq, w.dsq dsq ≠ [] ∧ WaitsIn p w dsq := by
  obtain ⟨dsq, e, he, hp⟩ := Shelf.exists_of_held_ne_zero (by rw [← places, h]; exact one_ne_zero)
  have hpos : 0 < (w.dsq dsq).countP (Entry.isOf p) := List.countP_pos_iff.mpr ⟨e, he, hp⟩
  have hle : (w.dsq dsq).countP (Entry.isOf p) ≤ 1 := h ▸ Shelf.countP_le_held hf dsq
  refine ⟨dsq, List.ne_nil_of_mem he, by omega, fun d hd => ?_⟩
  have htwo : (w.dsq d).countP (Entry.isOf p) + (w.dsq dsq).countP (Entry.isOf p) ≤ 1 :=
    h ▸ Shelf.countP_add_le_held hf hd
  omega

theorem flowInit_dsq {v : InitView} {w' : World} {made : List ℕ}
    (h : flowInit w v = .ok (w', made)) : w'.dsq = w.dsq := by
  unfold flowInit at h
  simp only at h
  split_ifs at h
  rcases hq : (initQueues v.nrCpuIds (initNodes w.topoNode v.nrCpuIds)).mapM (initCreate v)
    with e | ds
  · rw [hq] at h
    cases h
  · rw [hq] at h
    rw [← (Prod.mk.inj (Except.ok.inj h)).1]

/-- What a run from the attach keeps of the queues. -/
structure Shelved (made : List ℕ) (w : World) : Prop where
  attached : Attached made w
  known : OnKnown made w
  finite : Shelf.Finite w.dsq

theorem turn_shelved {made : List ℕ} (w : World) (t : Turn) (h : Shelved made w) :
    Shelved made (core.step w t) where
  attached := h.attached.of_counts (Prod.mk.inj (turn_counts w t)).1
    (Prod.mk.inj (turn_counts w t)).2
  known := turn_onKnown t h.attached h.known
  finite := (turn_places (p := 0) t h.finite).1

theorem flowInit_shelved {v : InitView} {w' : World} {made : List ℕ} (hempty : ∀ d, w.dsq d = [])
    (h : flowInit w v = .ok (w', made)) : Shelved made w' where
  attached := (flowInit_attached h).1
  known d hd := absurd ((congrFun (flowInit_dsq h) d).trans (hempty d)) hd
  finite := by
    rw [flowInit_dsq h]
    refine Set.finite_empty.subset fun d hd => ?_
    exact absurd (hempty d) hd

/-- From the attach on, a task that the kernel enqueued and has not taken off since waits once, in a
queue that exists; any other waits nowhere. -/
theorem run_waits_once (nrCpuIds nrNodeIds : ℕ) (topoNode : ℕ → ℕ) (v : InitView) (w : World)
    (made : List ℕ) (hinit : flowInit (World.boot nrCpuIds nrNodeIds topoNode) v = .ok (w, made))
    (p : TaskRef) (ts : List Turn) (h : EnqueuedOnce p w ts) :
    (core.total (joins p) w ts = core.total (leaves p) w ts
        ∧ ∀ dsq, ((core.exec w ts).dsq dsq).countP (Entry.isOf p) = 0)
      ∨ core.total (joins p) w ts = core.total (leaves p) w ts + 1
        ∧ ∃ dsq, Touchable made (core.exec w ts) dsq ∧ WaitsIn p (core.exec w ts) dsq := by
  have hstart := flowInit_shelved (fun _ => rfl) hinit
  have hend : Shelved made (core.exec w ts) :=
    Machine.exec_keeps core ts (fun w t _ => turn_shelved w t) hstart
  have hbegin : places w p = 0 := by
    refine Shelf.held_eq_zero_of_forall fun d e he => ?_
    rw [flowInit_dsq hinit] at he
    exact absurd he List.not_mem_nil
  have hcustody := run_custody w p ts hstart.finite
  have hone := h ts ((List.mem_inits ts ts).mpr (List.prefix_refl ts))
  rw [hbegin] at hcustody
  by_cases hwait : places (core.exec w ts) p = 0
  · refine Or.inl ⟨by omega, fun dsq => ?_⟩
    have hle := Shelf.countP_le_held (P := Entry.isOf p) hend.finite dsq
    rw [← places, hwait] at hle
    exact Nat.le_zero.mp hle
  · have hplaces : places (core.exec w ts) p = 1 := by omega
    obtain ⟨dsq, hne, hon⟩ := waitsIn_of_places hend.finite hplaces
    exact Or.inr ⟨by omega, dsq, hend.known dsq hne, hon⟩

theorem run_waits_once_wakeBehind :
    (core.total (joins 1) World.attached wakeBehind
          = core.total (leaves 1) World.attached wakeBehind
        ∧ ∀ dsq, ((core.exec World.attached wakeBehind).dsq dsq).countP (Entry.isOf 1) = 0)
      ∨ core.total (joins 1) World.attached wakeBehind
          = core.total (leaves 1) World.attached wakeBehind + 1
        ∧ ∃ dsq, Touchable (initQueues 2 2) (core.exec World.attached wakeBehind) dsq
          ∧ WaitsIn 1 (core.exec World.attached wakeBehind) dsq :=
  run_waits_once 0 0 (fun cpu => cpu) ⟨2, fun _ => 0⟩ World.attached (initQueues 2 2) rfl 1
    wakeBehind (by decide)

end WaitsIn

end ScxFlow
