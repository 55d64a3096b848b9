import ScxFlow.Lib.Ranked
import ScxFlow.Proofs.Custody
import ScxFlow.Proofs.VerdictEffects
import ScxFlow.Proofs.Stranded

/-!
# The order of the queues over runs

A queue the scheduler created changes by one insertion or loses entries, so what waits in it keeps
its order (`run_order`).  It stays sorted as long as its keys stay within half the clock's period
(`run_ordered`); the keys of the reject queue always do, whatever the clock (`run_rejects`).
-/

namespace ScxFlow

variable {w : World} {k : Kernel} {p : TaskRef} {d : ℕ}

section OneTurn

/-- The key of an insertion into the queue. -/
def Effect.keyInto (d : ℕ) : Effect → Option UInt64
  | .insertVtime dsq key _ => if dsq = d then some key else none
  | _ => none

/-- The keys a turn inserts into the queue. -/
def joinKeys (d : ℕ) (w : World) : Turn → List UInt64
  | .call ⟨k, .enqueue p enqFlags⟩ => (flowEnqueue w k p enqFlags).eff.filterMap (Effect.keyInto d)
  | _ => []

/-- What a turn leaves of a queue: some of its entries, or all with one newcomer placed by key. -/
inductive DsqTurn (d : ℕ) (w : World) : Turn → List Entry → Prop
  | left {t : Turn} {l : List Entry} (hkey : joinKeys d w t = []) (h : l.Sublist (w.dsq d)) :
    DsqTurn d w t l
  | placed {k : Kernel} {p : TaskRef} {enqFlags : UInt64} (key : UInt64)
    (hkey : key ∈ joinKeys d w (.call ⟨k, .enqueue p enqFlags⟩)) :
    DsqTurn d w (.call ⟨k, .enqueue p enqFlags⟩) (insertByKey ⟨p, key⟩ (w.dsq d))

/-- A queue the scheduler created is joined by key only. -/
theorem insertedTo_created {enqFlags : UInt64} {e : Effect} (hlt : d < scxDsqLocalOn)
    (he : e ∈ (flowEnqueue w k p enqFlags).eff) (hd : e.insertedTo = some d) :
    ∃ key flags, e = .insertVtime d key flags := by
  obtain ⟨dsq, c, hshape⟩ := flowEnqueue_shape w k p enqFlags
  obtain ⟨prep, store, rest, heff, hprep, ⟨join, kicks, hrest, hjoin, hkicks⟩, hstore⟩ :=
    hshape.parts
  have hnone {es : List Effect} (h : insertions es = []) (hmem : e ∈ es) : False := by
    rw [insertions_eq_nil.mp h e hmem] at hd
    cases hd
  have hterm {cpu : ℕ} {flags : UInt64} (h : e = .insert (scxLocalOn cpu) flags) : False := by
    subst h
    exact scxLocalOn_ne hlt (Option.some.inj hd).symm
  rw [heff, hrest] at he
  simp only [List.mem_append] at he
  rcases he with (he | he) | he | he
  · exact (hnone (insertions_of_aside (aside_of_isPrep hprep)) he).elim
  · exact (hnone hstore.insertions_eq he).elim
  · cases hjoin with
    | exiting cpu flags => exact (hterm (List.mem_singleton.mp he)).elim
    | bypass cpu flags =>
      rcases List.mem_pair.mp he with rfl | he
      · cases hd
      · exact (hterm he).elim
    | rejoin h key =>
      rcases List.mem_pair.mp he with rfl | rfl
      · exact ⟨key, 0, congrArg (Effect.insertVtime · key 0) (Option.some.inj hd)⟩
      · cases hd
    | gate key flags | red key flags =>
      rcases List.mem_pair.mp he with rfl | rfl
      · cases hd
      · exact ⟨key, flags, congrArg (Effect.insertVtime · key flags) (Option.some.inj hd)⟩
    | tier h key =>
      rcases List.mem_pair.mp he with rfl | rfl
      · cases hd
      · exact ⟨key, 0, congrArg (Effect.insertVtime · key 0) (Option.some.inj hd)⟩
  · exact (hnone (insertions_of_aside (aside_of_isKick hkicks)) he).elim

theorem Walked.sublist {cpu : ℕ} {before after : List Entry} {new : List Visit}
    (h : Walked k cpu d before after new) : after.Sublist before := by
  cases h with
  | kept l rest hq ha => rw [ha]
  | moved pre e post hq ha _ _ =>
    rw [ha, hq]
    exact (List.Sublist.refl pre).append (List.sublist_cons_self e post)

theorem joinKeys_of_not_touches {t : Turn} (ht : t.touches = false) : joinKeys d w t = [] := by
  cases t with
  | call c =>
    obtain ⟨k, op⟩ := c
    cases op with
    | enqueue p enqFlags => cases ht
    | _ => rfl
  | _ => rfl

/-- An enqueue that joins another queue has no key for this one. -/
theorem joinKeys_eq_nil {enqFlags : UInt64} {dsq : ℕ} (hd : d ≠ dsq)
    (h : insertions (flowEnqueue w k p enqFlags).eff = [dsq]) :
    joinKeys d w (.call ⟨k, .enqueue p enqFlags⟩) = [] := by
  refine List.filterMap_eq_nil_iff.mpr fun e he => ?_
  cases e with
  | insertVtime q key flags =>
    have hq : q ∈ insertions (flowEnqueue w k p enqFlags).eff :=
      List.mem_filterMap.mpr ⟨_, he, rfl⟩
    rw [h] at hq
    obtain rfl := List.mem_singleton.mp hq
    exact if_neg (Ne.symm hd)
  | _ => rfl

/-- What a turn does to one queue the scheduler created. -/
theorem turn_dsq (hlt : d < scxDsqLocalOn) (t : Turn) : DsqTurn d w t ((core.step w t).dsq d) := by
  cases turn_queues w t with
  | kept ht h =>
    rw [h]
    exact .left (joinKeys_of_not_touches ht) (List.Sublist.refl _)
  | joined e dsq he hi hins h =>
    rw [h]
    by_cases hd : d = dsq
    · subst hd
      obtain ⟨key, flags, rfl⟩ := insertedTo_created hlt he hi
      rw [World.perform, setDsq_self]
      exact .placed key (List.mem_filterMap.mpr ⟨_, he, by simp [Effect.keyInto]⟩)
    · rw [perform_dsq_other hi hd]
      exact .left (joinKeys_eq_nil hd hins) (List.Sublist.refl _)
  | passed s hl hs hok hlog h =>
    obtain ⟨Q, hok⟩ := hok
    rw [h]
    exact .left rfl (hok.queue d (scxLocalOn_ne hlt)).sublist
  | picked cpu =>
    have hkeep : (core.step w (.pick cpu)).dsq d = w.dsq d :=
      Function.update_of_ne (scxLocalOn_ne hlt) _ _
    rw [hkeep]
    exact .left rfl (List.Sublist.refl _)
  | dequeued q dsq =>
    by_cases hd : d = dsq
    · subst hd
      have hself : (core.step w (.dequeue q d)).dsq d
          = (w.dsq d).eraseP fun e => decide (e.task = q) := Function.update_self ..
      rw [hself]
      exact .left rfl List.eraseP_sublist
    · have hkeep : (core.step w (.dequeue q dsq)).dsq d = w.dsq d := Function.update_of_ne hd _ _
      rw [hkeep]
      exact .left rfl (List.Sublist.refl _)

end OneTurn

section Keeps

theorem insertByKey_eq_place (e : Entry) :
    ∀ l : List Entry, insertByKey e l = Ranked.place (fun a b => flowTimeBefore a.key b.key) e l
  | [] => rfl
  | q :: l => by rw [insertByKey, Ranked.place, insertByKey_eq_place e l]

/-- A turn that enqueues none of these tasks keeps what remains of them in order. -/
theorem turn_order (hlt : d < scxDsqLocalOn) {S : TaskRef → Bool} {t : Turn}
    (ht : ∀ p, S p = true → joins p w t = 0) :
    (((core.step w t).dsq d).filter fun e => S e.task).Sublist
      ((w.dsq d).filter fun e => S e.task) := by
  generalize hl : (core.step w t).dsq d = l
  cases hl ▸ turn_dsq (w := w) hlt t with
  | left hnone h => exact h.filter _
  | @placed k p enqFlags key hkey =>
    have hp : S p = false := by
      rw [← Bool.not_eq_true]
      intro hp
      have hone := ht p hp
      rw [joins, if_pos rfl] at hone
      exact one_ne_zero hone
    obtain ⟨pre, post, hq, hi⟩ := insertByKey_split ⟨p, key⟩ (w.dsq d)
    rw [hi, hq, List.filter_append, List.filter_append, List.filter_cons_of_neg (by simp [hp])]

/-- Over a run that enqueues none of these tasks, what remains of them in a queue keeps its order. -/
theorem run_order (w : World) (ts : List Turn) (d : ℕ) (hlt : d < scxDsqLocalOn)
    (S : TaskRef → Bool) (h : core.Along (fun w t => ∀ p, S p = true → joins p w t = 0) w ts) :
    (((core.exec w ts).dsq d).filter fun e => S e.task).Sublist
      ((w.dsq d).filter fun e => S e.task) :=
  Machine.exec_along (I := fun w' : World => ((w'.dsq d).filter fun e => S e.task).Sublist
      ((w.dsq d).filter fun e => S e.task))
    (fun _ _ ht hi => (turn_order hlt ht).trans hi) h (List.Sublist.refl _)

end Keeps

section Near

/-- The key is less than half the clock's period past `base`. -/
def KeyNear (base key : UInt64) : Prop := (key - base).toNat < 0x8000000000000000

instance (base key : UInt64) : Decidable (KeyNear base key) :=
  inferInstanceAs (Decidable ((key - base).toNat < 0x8000000000000000))

/-- How far the key of an entry is past `base`. -/
def Entry.rank (base : UInt64) (e : Entry) : ℕ := (e.key - base).toNat

theorem flowTimeBefore_near {base a b : UInt64} (ha : KeyNear base a) (hb : KeyNear base b) :
    flowTimeBefore a b = true ↔ (a - base).toNat < (b - base).toNat := by
  have hword := And.intro a.toNat_lt (And.intro b.toNat_lt base.toNat_lt)
  unfold KeyNear at ha hb
  rw [flowTimeBefore_iff_sub]
  simp only [UInt64.toNat_sub] at ha hb ⊢
  omega

/-- A queue in order, all of its keys near. -/
structure Ordered (base : UInt64) (l : List Entry) : Prop where
  near : ∀ e ∈ l, KeyNear base e.key
  sorted : KeySorted l

theorem Ordered.nil (base : UInt64) : Ordered base [] := ⟨by simp, List.Pairwise.nil⟩

theorem byRank_near {base : UInt64} {l : List Entry} (h : ∀ e ∈ l, KeyNear base e.key) :
    Ranked.ByRank (fun a b : Entry => flowTimeBefore a.key b.key) (Entry.rank base) l :=
  fun a ha b hb => flowTimeBefore_near (h a ha) (h b hb)

theorem Ordered.sublist {base : UInt64} {l l' : List Entry} (h : Ordered base l)
    (hs : l'.Sublist l) : Ordered base l' where
  near e he := h.near e (hs.subset he)
  sorted := List.Pairwise.sublist hs h.sorted

theorem Ordered.insert {base : UInt64} {l : List Entry} (h : Ordered base l) {e : Entry}
    (he : KeyNear base e.key) : Ordered base (insertByKey e l) := by
  have hnear : ∀ x ∈ e :: l, KeyNear base x.key := List.forall_mem_cons.mpr ⟨he, h.near⟩
  rw [insertByKey_eq_place]
  refine ⟨fun x hx => ?_, Ranked.Sorted.place h.sorted (byRank_near hnear)⟩
  rcases Ranked.mem_place.mp hx with rfl | hx
  · exact he
  · exact h.near x hx

/-- The keys a turn inserts into the queue are near. -/
def JoinsNear (base : UInt64) (d : ℕ) (w : World) (t : Turn) : Prop :=
  ∀ key ∈ joinKeys d w t, KeyNear base key

theorem turn_ordered {base : UInt64} (hlt : d < scxDsqLocalOn) {t : Turn}
    (ht : JoinsNear base d w t) (h : Ordered base (w.dsq d)) :
    Ordered base ((core.step w t).dsq d) := by
  generalize hl : (core.step w t).dsq d = l
  cases hl ▸ turn_dsq (w := w) hlt t with
  | left hnone hs => exact h.sublist hs
  | placed key hkey => exact h.insert (ht key hkey)

instance (base : UInt64) (d : ℕ) (w : World) (t : Turn) : Decidable (JoinsNear base d w t) :=
  List.decidableBAll (KeyNear base) (joinKeys d w t)

/-- A queue in order stays so over every run whose keys for it are near. -/
theorem run_ordered (base : UInt64) (w : World) (ts : List Turn) (d : ℕ)
    (hlt : d < scxDsqLocalOn) (hstart : Ordered base (w.dsq d))
    (h : core.Along (JoinsNear base d) w ts) : Ordered base ((core.exec w ts).dsq d) :=
  Machine.exec_along (I := fun w' : World => Ordered base (w'.dsq d))
    (fun _ _ ht hi => turn_ordered hlt ht hi) h hstart

/-- Task 0 runs on CPU 0, task 1 waits for that CPU and task 2 for its node. -/
def twoWait : List Turn :=
  [.call ⟨Kernel.plain 500, .enqueue 0 0⟩, .pick 0, .call ⟨Kernel.plain 600, .running 0⟩,
    .call ⟨Kernel.plain 1000, .enqueue 1 0⟩, .call ⟨Kernel.plain 2000, .enqueue 2 0⟩]

def World.waiting : World := core.exec World.attached twoWait

/-- Behind the task on CPU 0 and the one that waits for it, two tasks of twice and of half the neutral
weight wait for the node. -/
def weighedWait (more : List Turn) : List Turn :=
  .call ⟨Kernel.plain 500, .enqueue 0 0⟩ :: .pick 0 :: .call ⟨Kernel.plain 600, .running 0⟩
    :: .call ⟨Kernel.plain 1000, .enqueue 1 0⟩
    :: .call ⟨Kernel.plain 1100, .enable 2⟩ :: .call ⟨Kernel.plain 1100, .setWeight 2 256⟩
    :: .call ⟨Kernel.plain 1200, .enqueue 2 0⟩
    :: .call ⟨Kernel.plain 1300, .enable 3⟩ :: .call ⟨Kernel.plain 1300, .setWeight 3 64⟩
    :: .call ⟨Kernel.plain 1400, .enqueue 3 0⟩ :: more

/-- A task of the neutral weight. -/
def joinsBetween : List Turn := [.call ⟨Kernel.plain 2000, .enqueue 4 0⟩]

/-- It joins between the two. -/
theorem run_ordered_weighedWait :
    (core.exec World.attached (weighedWait [])).dsq (flowNodeDsq 0) = [⟨2, 25000⟩, ⟨3, 100000⟩]
      ∧ (core.exec World.attached (weighedWait joinsBetween)).dsq (flowNodeDsq 0)
        = [⟨2, 25000⟩, ⟨4, 50000⟩, ⟨3, 100000⟩]
      ∧ Ordered 0 ((core.exec World.attached (weighedWait joinsBetween)).dsq (flowNodeDsq 0)) :=
  ⟨by decide +kernel, by decide +kernel,
    run_ordered 0 World.attached (weighedWait joinsBetween) (flowNodeDsq 0) (by decide)
      (Ordered.nil 0) (by decide +kernel)⟩

end Near

section First

/-- The entry is of one of two tasks. -/
def ofEither (p q : TaskRef) (r : TaskRef) : Bool := decide (r = p ∨ r = q)

/-- A newcomer that is before none of a task's entries goes behind them all. -/
theorem insertByKey_behind {base : UInt64} {l : List Entry} {q : TaskRef} {key : UInt64}
    (h : Ordered base l) (hkey : KeyNear base key)
    (hq : ∀ e ∈ l, e.task ≠ q) (hbehind : ∀ e ∈ l, e.task = p → flowTimeBefore key e.key = false) :
    ((insertByKey ⟨q, key⟩ l).filter fun e => ofEither p q e.task)
      = (l.filter fun e => decide (e.task = p)) ++ [⟨q, key⟩] := by
  have hnear : ∀ x ∈ (⟨q, key⟩ : Entry) :: l, KeyNear base x.key :=
    List.forall_mem_cons.mpr ⟨hkey, h.near⟩
  obtain ⟨pre, post, hl, hp, hpre, hpost⟩ := Ranked.place_split
    (fun a b : Entry => flowTimeBefore a.key b.key) ⟨q, key⟩ l
  have hrank := byRank_near hnear
  rw [insertByKey_eq_place, hp]
  subst hl
  have hlt := Ranked.before_of_mem_post h.sorted hrank hpost
  have hnone : post.filter (fun e => ofEither p q e.task) = [] := by
    rw [List.filter_eq_nil_iff]
    intro e he
    have hep : e.task ≠ p := by
      intro hep
      have hnot := hbehind e (by simp [he]) hep
      have hyes := (hrank ⟨q, key⟩ (by simp) e (by simp [he])).mpr (hlt e he)
      rw [show flowTimeBefore key e.key = true from hyes] at hnot
      cases hnot
    simp [ofEither, hep, hq e (by simp [he])]
  have hnone' : post.filter (fun e => decide (e.task = p)) = [] := by
    rw [List.filter_eq_nil_iff] at hnone ⊢
    intro e he hep
    exact hnone e he (by simp only [ofEither, of_decide_eq_true hep, true_or, decide_true])
  have hsame : pre.filter (fun e => ofEither p q e.task)
      = pre.filter (fun e => decide (e.task = p)) := by
    refine List.filter_congr fun e he => ?_
    simp [ofEither, hq e (by simp [he])]
  rw [List.filter_append, List.filter_cons_of_pos (by simp [ofEither]), hnone, hsame,
    List.filter_append, hnone', List.append_nil]

/-- A task that joins a queue in order with a key before none of another's stands behind it for as
long as both wait there. -/
theorem run_first_come (base : UInt64) (w : World) (d : ℕ) (hlt : d < scxDsqLocalOn)
    (hstart : Ordered base (w.dsq d)) (p q : TaskRef)
    (hq : ∀ e ∈ w.dsq d, e.task ≠ q) (k : Kernel) (enqFlags key : UInt64)
    (hkey : joinKeys d w (.call ⟨k, .enqueue q enqFlags⟩) = [key]) (hnear : KeyNear base key)
    (hbehind : ∀ e ∈ w.dsq d, e.task = p → flowTimeBefore key e.key = false) (ts : List Turn)
    (h : core.Along (fun w t => joins p w t = 0 ∧ joins q w t = 0)
      (core.step w (.call ⟨k, .enqueue q enqFlags⟩)) ts) :
    (((core.exec w (.call ⟨k, .enqueue q enqFlags⟩ :: ts)).dsq d).filter
        fun e => ofEither p q e.task).Sublist
      (((w.dsq d).filter fun e => decide (e.task = p)) ++ [⟨q, key⟩]) := by
  have hjoin : (core.step w (.call ⟨k, .enqueue q enqFlags⟩)).dsq d
      = insertByKey ⟨q, key⟩ (w.dsq d) := by
    generalize hl : (core.step w (.call ⟨k, .enqueue q enqFlags⟩)).dsq d = l
    cases hl ▸ turn_dsq (w := w) hlt (.call ⟨k, .enqueue q enqFlags⟩) with
    | left hnone hs =>
      rw [hkey] at hnone
      cases hnone
    | placed key' hkey' =>
      rw [hkey, List.mem_singleton] at hkey'
      rw [hkey']
  have hkept := run_order _ ts d hlt (ofEither p q)
    (Machine.Along.mono (fun w t ht r hr => by
      rcases of_decide_eq_true hr with rfl | rfl
      · exact ht.1
      · exact ht.2) h)
  rw [hjoin, insertByKey_behind hstart hnear hq hbehind] at hkept
  exact hkept

/-- A third task joins the node's queue with the key of the second, and a pass moves the second. -/
theorem run_first_come_tie :
    (((core.exec World.waiting [.call ⟨Kernel.plain 3000, .enqueue 3 0⟩,
        .call ⟨Kernel.plain 4000, .dispatch 1⟩]).dsq (flowNodeDsq 0)).filter
        fun e => ofEither 2 3 e.task).Sublist
      (((World.waiting.dsq (flowNodeDsq 0)).filter fun e => decide (e.task = 2))
        ++ [⟨3, 50000⟩]) := by
  have hqueue : World.waiting.dsq (flowNodeDsq 0) = [⟨2, 50000⟩] := by decide +kernel
  have hord : Ordered 0 (World.waiting.dsq (flowNodeDsq 0)) := by
    rw [hqueue]
    exact ⟨by decide, List.pairwise_singleton _ _⟩
  exact run_first_come 0 World.waiting (flowNodeDsq 0) (by decide) hord 2 3
    (by rw [hqueue]; decide) (Kernel.plain 3000) 0 50000 (by decide +kernel) (by decide)
    (by rw [hqueue]; decide) [.call ⟨Kernel.plain 4000, .dispatch 1⟩] ⟨⟨rfl, rfl⟩, trivial⟩

end First

/-- A reject's key is its value counted down from the greatest. -/
theorem flowRejectKey_toNat (value : UInt32) :
    (flowRejectKey value).toNat + (flowWeightClamp value).toNat = 16384 := by
  obtain ⟨hlo, hhi⟩ := flowWeightClamp_in value
  have hmax : flowWeightMax.toUInt32.toNat = 16384 := rfl
  have hle : (flowWeightClamp value) ≤ flowWeightMax.toUInt32 := by
    rw [UInt32.le_iff_toNat_le]
    omega
  unfold flowRejectKey
  simp only
  rw [UInt32.toNat_toUInt64, UInt32.toNat_sub_of_le _ _ hle]
  omega

theorem flowRejectKey_near (value : UInt32) : KeyNear 0 (flowRejectKey value) := by
  have hkey := flowRejectKey_toNat value
  unfold KeyNear
  rw [UInt64.sub_zero]
  omega

/-- A value is within the clamp already. -/
theorem flowRedValue_clamp (share : UInt32) (isCrit : Bool) :
    flowWeightClamp (flowRedValue share isCrit) = flowRedValue share isCrit := by
  unfold flowRedValue
  split_ifs
  · rfl
  · exact flowWeightClamp_of_in (flowWeightClamp_in _)
  · exact flowWeightClamp_of_in (flowWeightClamp_in _)

/-- An enqueue of the run put the entry into the reject queue, with the value that a verdict of the
enqueue gave it. -/
def ValuedBy (w₀ : World) (ts : List Turn) (e : Entry) (value : UInt32) : Prop :=
  ∃ pre k f post, ts = pre ++ .call ⟨k, .enqueue e.task f⟩ :: post
    ∧ e.key ∈ joinKeys flowOverflowDsq (core.exec w₀ pre) (.call ⟨k, .enqueue e.task f⟩)
    ∧ e.key = flowRejectKey value
    ∧ ∃ v ∈ flowEnqueueVerdicts (core.exec w₀ pre) k e.task f, v.value? = some value

section Values
variable {w₀ : World} {ts : List Turn} {a b : Entry}

theorem ValuedBy.mono {value : UInt32} (h : ValuedBy w₀ ts a value) (t : Turn) :
    ValuedBy w₀ (ts ++ [t]) a value := by
  obtain ⟨pre, k, f, post, rfl, hkey, hvalue, hv⟩ := h
  exact ⟨pre, k, f, post ++ [t], by simp, hkey, hvalue, hv⟩

/-- A key counts its value down, so the smaller key has the greater value. -/
theorem ValuedBy.le {va vb : UInt32} (ha : ValuedBy w₀ ts a va) (hb : ValuedBy w₀ ts b vb)
    (h : a.key ≤ b.key) : vb ≤ va := by
  have hclamp {e : Entry} {v : UInt32} (h : ValuedBy w₀ ts e v) :
      e.key.toNat + v.toNat = 16384 := by
    obtain ⟨-, -, -, -, -, -, hkey, use, -, hvalue⟩ := h
    have hsum := flowRejectKey_toNat v
    unfold Verdict.value? at hvalue
    split at hvalue
    · rename_i share _
      rw [← Option.some.inj hvalue, flowRedValue_clamp, Option.some.inj hvalue, ← hkey] at hsum
      exact hsum
    · cases hvalue
  have hsa := hclamp ha
  have hsb := hclamp hb
  rw [UInt64.le_iff_toNat_le] at h
  rw [UInt32.le_iff_toNat_le]
  omega

/-- What an enqueue inserts into the reject queue has the value of one of its verdicts. -/
theorem mem_joinKeys_reject {k : Kernel} {p : TaskRef} {f key : UInt64}
    (h : key ∈ joinKeys flowOverflowDsq w (.call ⟨k, .enqueue p f⟩)) :
    ∃ value, key = flowRejectKey value
      ∧ ∃ v ∈ flowEnqueueVerdicts w k p f, v.value? = some value := by
  obtain ⟨e, he, hkey⟩ := List.mem_filterMap.mp h
  cases e with
  | insertVtime dsq key' flags =>
    simp only [Effect.keyInto, Option.ite_none_right_eq_some, Option.some.injEq] at hkey
    obtain ⟨rfl, rfl⟩ := hkey
    obtain ⟨v, hv, value, hvalue, heq⟩ :=
      ((flowEnqueueVerdicts_tells w k p f).values _).mp ⟨flags, he⟩
    exact ⟨value, heq, v, hv, hvalue⟩
  | _ => cases hkey

theorem joinKeys_reject_near (w : World) (t : Turn) :
    ∀ key ∈ joinKeys flowOverflowDsq w t, KeyNear 0 key := by
  intro key hkey
  cases t with
  | call c =>
    obtain ⟨k, op⟩ := c
    cases op with
    | enqueue p f =>
      obtain ⟨value, rfl, -⟩ := mem_joinKeys_reject hkey
      exact flowRejectKey_near value
    | _ => exact absurd hkey List.not_mem_nil
  | _ => exact absurd hkey List.not_mem_nil

theorem turn_valued (t : Turn)
    (h : ∀ e ∈ (core.exec w₀ ts).dsq flowOverflowDsq, ∃ value, ValuedBy w₀ ts e value) :
    ∀ e ∈ (core.exec w₀ (ts ++ [t])).dsq flowOverflowDsq,
      ∃ value, ValuedBy w₀ (ts ++ [t]) e value := by
  have hold {e : Entry} (he : e ∈ (core.exec w₀ ts).dsq flowOverflowDsq) :
      ∃ value, ValuedBy w₀ (ts ++ [t]) e value :=
    let ⟨value, hv⟩ := h e he
    ⟨value, hv.mono t⟩
  rw [core.exec_snoc]
  generalize hl : (core.step (core.exec w₀ ts) t).dsq flowOverflowDsq = l
  cases hl ▸ turn_dsq (w := core.exec w₀ ts) (d := flowOverflowDsq) (by decide) t with
  | left hnone hs => exact fun e he => hold (hs.subset he)
  | placed key hkey =>
    intro e he
    rw [insertByKey_eq_place] at he
    rcases Ranked.mem_place.mp he with rfl | he
    · obtain ⟨value, heq, hv⟩ := mem_joinKeys_reject hkey
      exact ⟨value, ts, _, _, [], rfl, hkey, heq, hv⟩
    · exact hold he

end Values

/-- In every state the scheduler comes to, each task of the reject queue was put there by an enqueue
with the value of one of its verdicts, and the queue lists them from the greatest value to the
smallest. -/
theorem run_rejects (nrCpuIds nrNodeIds : ℕ) (topoNode : ℕ → ℕ) (ts : List Turn) :
    let w₀ := World.boot nrCpuIds nrNodeIds topoNode
    let rejects := (core.exec w₀ ts).dsq flowOverflowDsq
    (∀ e ∈ rejects, ∃ value, ValuedBy w₀ ts e value)
      ∧ rejects.Pairwise (fun a b => a.key ≤ b.key)
      ∧ rejects.Pairwise fun a b => ∀ va vb, ValuedBy w₀ ts a va → ValuedBy w₀ ts b vb → vb ≤ va := by
  intro w₀ rejects
  have hvalues : ∀ e ∈ rejects, ∃ value, ValuedBy w₀ ts e value :=
    core.run_induction (P := fun _ _ => True)
      (I := fun ts => ∀ e ∈ (core.exec w₀ ts).dsq flowOverflowDsq, ∃ value, ValuedBy w₀ ts e value)
      (fun e he => absurd he List.not_mem_nil) (fun _ t _ h => turn_valued t h)
      (core.along_of_forall (fun _ _ => trivial) w₀ ts)
  have hord := run_ordered 0 w₀ ts flowOverflowDsq (by decide) (Ordered.nil 0)
    (core.along_of_forall joinKeys_reject_near _ _)
  have hkeys : rejects.Pairwise fun a b => a.key ≤ b.key := by
    refine hord.sorted.imp_of_mem fun {a b} ha hb hba => ?_
    have hiff := flowTimeBefore_near (hord.near b hb) (hord.near a ha)
    rw [UInt64.sub_zero, UInt64.sub_zero] at hiff
    rw [UInt64.le_iff_toNat_le, ← Nat.not_lt, ← hiff, hba]
    exact Bool.false_ne_true
  exact ⟨hvalues, hkeys, hkeys.imp fun h va vb ha hb => ha.le hb h⟩

end ScxFlow
