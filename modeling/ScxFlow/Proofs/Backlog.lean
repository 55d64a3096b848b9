import ScxFlow.Proofs.Custody
import ScxFlow.Proofs.Tells

/-!
# The page adds up to the queues

What waits in a class of queues is what joined it less what left it (`run_class`).  The joins, the
moves and the reclaims are counted, so from what a poll answers one can tell how many tasks wait in
the tiers, and how many wait at most in the reject queue (`run_backlog`).
-/

namespace ScxFlow

variable {w : World} {k : Kernel} {p : TaskRef} {C : ℕ → Bool}

section QueueClass

/-- The tasks that wait in the queues of a class. -/
noncomputable def waiting (C : ℕ → Bool) (w : World) : ℕ :=
  Shelf.held (Shelf.only C w.dsq) fun _ => true

/-- One for an enqueue that joins the class. -/
def joined (C : ℕ → Bool) (w : World) : Turn → ℕ
  | .call ⟨k, .enqueue p enqFlags⟩ => (insertions (flowEnqueue w k p enqFlags).eff).countP C
  | _ => 0

/-- What a turn's pass moves off the class. -/
def movedOff (C : ℕ → Bool) (w : World) (t : Turn) : ℕ :=
  (movesOf (passLog w t)).countP fun v => C v.dsq

/-- One for a turn of the kernel that takes a task off the class. -/
def takenOff (C : ℕ → Bool) (w : World) : Turn → ℕ
  | .dequeue q dsq => if C dsq ∧ (w.dsq dsq).any (Entry.isOf q) then 1 else 0
  | _ => 0

/-- The class has no terminal queue. -/
def Created (C : ℕ → Bool) : Prop := ∀ dsq, C dsq = true → dsq < scxDsqLocalOn

/-- A walk takes off its queue what it moves. -/
theorem Walked.length_eq {cpu dsq : ℕ} {before after : List Entry} {new : List Visit}
    (h : Walked k cpu dsq before after new) :
    after.length + (movesOf new).length = before.length
      ∧ (movesOf new).countP (fun v => C v.dsq) = if C dsq then (movesOf new).length else 0 := by
  cases h with
  | kept l rest hq ha =>
    rw [ha]
    simp
  | moved pre e post hq ha hok hpre =>
    have hone : movesOf (refused dsq pre ++ [⟨dsq, e, true⟩]) = [⟨dsq, e, true⟩] := by
      rw [movesOf_append, movesOf_refused]
      rfl
    rw [ha, hq, hone]
    simp [List.countP_cons]
    omega

/-- A stage takes off a class what it moves off its queue. -/
theorem Stage.class_eq {cpu dsq : ℕ} {s s' : Pass} {new : List Visit}
    (hs : Stage k cpu dsq s s' new) (hC : Created C) (hf : Shelf.Finite s.world.dsq) :
    Shelf.Finite s'.world.dsq
      ∧ waiting C s'.world + (movesOf new).countP (fun v => C v.dsq) = waiting C s.world := by
  obtain ⟨hlen, hcount⟩ := hs.queue.length_eq (C := C)
  have hterminal : C (scxLocalOn cpu) = false := by
    rw [← Bool.not_eq_true]
    exact fun hc => scxLocalOn_ne (hC _ hc) rfl
  have hqueue := Shelf.held_only_update (C := C) (P := fun _ => true) hf dsq (s'.world.dsq dsq)
  simp only [List.countP_true] at hqueue
  rw [hcount]
  unfold waiting
  rw [hs.dsq_eq]
  refine ⟨(hf.update _ _).update _ _, ?_⟩
  rw [Shelf.only_update_other hterminal]
  split_ifs at hqueue ⊢
  · omega
  · omega

theorem Stages.class_eq {cpu : ℕ} {s s' : Pass} (h : Stages k cpu s s') (hC : Created C)
    (hf : Shelf.Finite s.world.dsq) :
    Shelf.Finite s'.world.dsq
      ∧ waiting C s'.world + (movesOf s'.log).countP (fun v => C v.dsq)
        = waiting C s.world + (movesOf s.log).countP (fun v => C v.dsq) := by
  induction h with
  | refl => exact ⟨hf, rfl⟩
  | tail _ hstage ih =>
    obtain ⟨hfin, heq⟩ := ih
    obtain ⟨dsq, new, -, hs⟩ := hstage
    obtain ⟨hfin', heq'⟩ := hs.class_eq hC hfin
    refine ⟨hfin', ?_⟩
    rw [hs.log, movesOf_append, List.countP_append]
    omega

theorem perform_class {e : Effect} {dsq : ℕ} {q : TaskRef} (hd : e.insertedTo = some dsq)
    (hf : Shelf.Finite w.dsq) :
    Shelf.Finite (w.perform k q e).dsq
      ∧ waiting C (w.perform k q e) = waiting C w + if C dsq then 1 else 0 := by
  have hone {l : List Entry} (hl : l.length = (w.dsq dsq).length + 1) :
      Shelf.Finite (Function.update w.dsq dsq l)
        ∧ Shelf.held (Shelf.only C (Function.update w.dsq dsq l)) (fun _ => true)
          = waiting C w + if C dsq then 1 else 0 := by
    have h := Shelf.held_only_update (C := C) (P := fun _ => true) hf dsq l
    simp only [List.countP_true] at h
    refine ⟨hf.update _ _, ?_⟩
    unfold waiting
    split_ifs at h ⊢
    · omega
    · omega
  cases e with
  | insertVtime d key flags =>
    obtain rfl : d = dsq := Option.some.inj hd
    obtain ⟨pre, post, hsplit, hins⟩ := insertByKey_split ⟨q, key⟩ (w.dsq d)
    refine hone ?_
    rw [hins, hsplit]
    simp
    omega
  | insert d flags =>
    obtain rfl : d = dsq := Option.some.inj hd
    exact hone (by simp)
  | _ => cases hd

theorem passLog_eq_nil {t : Turn} (h : ∀ k cpu, t ≠ .call ⟨k, .dispatch cpu⟩) :
    passLog w t = [] := by
  cases t with
  | call c =>
    obtain ⟨k, op⟩ := c
    cases op with
    | dispatch cpu => exact absurd rfl (h k cpu)
    | _ => rfl
  | _ => rfl

theorem joined_eq_zero {t : Turn} (ht : t.touches = false) : joined C w t = 0 := by
  cases t with
  | call c =>
    obtain ⟨k, op⟩ := c
    cases op with
    | enqueue q enqFlags => cases ht
    | _ => rfl
  | _ => rfl

theorem takenOff_eq_zero {t : Turn} (ht : t.touches = false) : takenOff C w t = 0 := by
  cases t with
  | dequeue q dsq => cases ht
  | _ => rfl

theorem length_eraseP_add (q : TaskRef) (l : List Entry) :
    (l.eraseP fun e => decide (e.task = q)).length + (if l.any (Entry.isOf q) then 1 else 0)
      = l.length := by
  have hlen := List.length_eraseP (p := Entry.isOf q) (l := l)
  change (l.eraseP (Entry.isOf q)).length + _ = _
  rw [hlen]
  split
  · rename_i hany
    obtain ⟨e, he, -⟩ := List.any_eq_true.mp hany
    have hpos := List.length_pos_of_mem he
    omega
  · rfl

/-- A turn takes off a class what it moves and removes of it, and adds what joins it. -/
theorem turn_class (t : Turn) (hC : Created C) (hf : Shelf.Finite w.dsq) :
    Shelf.Finite (core.step w t).dsq
      ∧ waiting C (core.step w t) + (movedOff C w t + takenOff C w t)
        = waiting C w + joined C w t := by
  have hqueues {w' : World} (h : w'.dsq = w.dsq) : waiting C w' = waiting C w := by
    unfold waiting
    rw [h]
  by_cases hpass : ∃ k cpu, t = .call ⟨k, .dispatch cpu⟩
  · obtain ⟨k, cpu, rfl⟩ := hpass
    show Shelf.Finite (flowDispatch w k cpu).dsq ∧ waiting C (flowDispatch w k cpu)
      + (((movesOf (flowDispatchPass w k cpu true).log).countP fun v => C v.dsq) + 0)
      = waiting C w + 0
    rcases flowDispatch_cases w k cpu with ⟨hlog, stats, levels, hw⟩ | ⟨c, rfl, hl, -⟩
    · rw [hlog, hw]
      exact ⟨hf, rfl⟩
    · obtain ⟨s, hs, -, hlog, hdsq⟩ := flowDispatch_stages (k := k) hl
      obtain ⟨hfin, heq⟩ := hs.class_eq hC hf
      rw [← hlog]
      unfold waiting at heq ⊢
      rw [hdsq]
      exact ⟨hfin, heq⟩
  · have hlog : movedOff C w t = 0 := by
      unfold movedOff
      rw [passLog_eq_nil fun k cpu ht => hpass ⟨k, cpu, ht⟩]
      rfl
    rw [hlog, Nat.zero_add]
    cases turn_queues w t with
    | kept ht h =>
      rw [h, hqueues h, joined_eq_zero ht, takenOff_eq_zero ht]
      exact ⟨hf, rfl⟩
    | @joined k p enqFlags _ e dsq he hd hins h =>
      obtain ⟨hfin, heq⟩ := perform_class (k := k) (C := C) (q := p) hd hf
      rw [h]
      refine ⟨hfin, ?_⟩
      show waiting C (core.step w _) + 0 = waiting C w
        + (insertions (flowEnqueue w k p enqFlags).eff).countP C
      unfold waiting at heq ⊢
      rw [h, heq, hins, List.countP_singleton, Nat.add_zero]
    | passed s hl hs hok hlog h => exact absurd ⟨_, _, rfl⟩ hpass
    | picked cpu =>
      have hterminal : C (scxLocalOn cpu) = false := by
        rw [← Bool.not_eq_true]
        exact fun hc => scxLocalOn_ne (hC _ hc) rfl
      refine ⟨hf.update _ _, ?_⟩
      show Shelf.held (Shelf.only C (Function.update w.dsq (scxLocalOn cpu) _)) _ + 0 = _ + 0
      rw [Shelf.only_update_other hterminal]
      rfl
    | dequeued q dsq =>
      have hq := Shelf.held_only_update (C := C) (P := fun _ => true) hf dsq
        ((w.dsq dsq).eraseP fun e => decide (e.task = q))
      have hlen := length_eraseP_add q (w.dsq dsq)
      simp only [List.countP_true] at hq
      refine ⟨hf.update _ _, ?_⟩
      show Shelf.held (Shelf.only C (Function.update w.dsq dsq _)) (fun _ => true)
        + (if C dsq ∧ (w.dsq dsq).any (Entry.isOf q) then 1 else 0)
        = Shelf.held (Shelf.only C w.dsq) (fun _ => true) + 0
      rcases hc : C dsq with _ | _
      · simp only [hc, Bool.false_eq_true, ↓reduceIte, false_and] at hq ⊢
        exact hq
      · simp only [hc, ↓reduceIte, true_and] at hq ⊢
        omega

/-- Over any order of turns, what waits in a class of created queues is what waited there and what
joined it, less what passes moved off it and what the kernel took off. -/
theorem run_class (w : World) (ts : List Turn) (hC : Created C) (hf : Shelf.Finite w.dsq) :
    waiting C (core.exec w ts) + (core.total (movedOff C) w ts + core.total (takenOff C) w ts)
      = waiting C w + core.total (joined C) w ts := by
  rw [← core.total_add]
  exact Machine.balance (I := fun w : World => Shelf.Finite w.dsq) (φ := waiting C)
    (fun _ t _ h => (turn_class t hC h).1) (fun _ t _ h => (turn_class t hC h).2)
    (core.along_of_forall (P := fun _ _ => True) (fun _ _ => trivial) w ts) hf

end QueueClass

section Counted

/-- The queues of the tiers, the only created ones beside the reject queue. -/
def tierQueue (dsq : ℕ) : Bool := decide (dsq < scxDsqLocalOn ∧ dsq ≠ flowOverflowDsq)

def rejectQueue (dsq : ℕ) : Bool := decide (dsq = flowOverflowDsq)

theorem tierQueue_created : Created tierQueue := fun _ h => (of_decide_eq_true h).1

theorem rejectQueue_created : Created rejectQueue := fun _ h =>
  of_decide_eq_true h ▸ by decide

/-- One for an enqueue that is admitted past the tiers, onto a terminal queue. -/
def bypassed (w : World) : Turn → ℕ
  | .call ⟨k, .enqueue p enqFlags⟩ =>
    if (flowEnqueueExiting w k p enqFlags).isSome then 0
    else (insertions (flowEnqueue w k p enqFlags).eff).countP fun d => decide (scxDsqLocalOn ≤ d)
  | _ => 0

/-- The verdicts a turn counts are the queues it joins. -/
structure TellsJoins (w : World) (t : Turn) : Prop where
  admits : amountOf .admits (turnEffects w t) = joined tierQueue w t + bypassed w t
  rejects : joined rejectQueue w t
    ≤ amountOf .redRejects (turnEffects w t) + amountOf .gateRejects (turnEffects w t)

theorem enqueue_joins (w : World) (k : Kernel) (p : TaskRef) (enqFlags : UInt64) :
    TellsJoins w (.call ⟨k, .enqueue p enqFlags⟩) := by
  obtain ⟨dsq, c, h⟩ := flowEnqueue_shape w k p enqFlags
  obtain ⟨join, hjoin⟩ := h.joins
  have hamount {v : Counter} (hv : IsVerdict v) :
      amountOf v (turnEffects w (.call ⟨k, .enqueue p enqFlags⟩)) = if c = some v then 1 else 0 := by
    rw [turnEffects_onTask rfl]
    unfold amountOf
    rw [h.countsOf_eq hv]
    split_ifs
    · rfl
    · rfl
  have hin (C : ℕ → Bool) : joined C w (.call ⟨k, .enqueue p enqFlags⟩) = if C dsq then 1 else 0 := by
    show (insertions (flowEnqueue w k p enqFlags).eff).countP C = _
    rw [h.insertions_eq, List.countP_singleton]
  have hpast : bypassed w (.call ⟨k, .enqueue p enqFlags⟩)
      = if (flowEnqueueExiting w k p enqFlags).isSome then 0
        else if decide (scxDsqLocalOn ≤ dsq) then 1 else 0 := by
    show (if (flowEnqueueExiting w k p enqFlags).isSome then 0
      else (insertions (flowEnqueue w k p enqFlags).eff).countP fun d => decide (scxDsqLocalOn ≤ d)) = _
    rw [h.insertions_eq, List.countP_singleton]
  have hterminal (C : ℕ → Bool) (hC : Created C) (cpu : ℕ) : C (scxLocalOn cpu) = false := by
    rw [← Bool.not_eq_true]
    exact fun hc => scxLocalOn_ne (hC _ hc) rfl
  rcases c with _ | c
  · -- an exiting task is told of nothing, and joins no created queue
    have hexit : (flowEnqueueExiting w k p enqFlags).isSome = true := h.direct.mp rfl
    cases hjoin with
    | exiting cpu flags =>
      constructor
      · rw [hamount (Or.inl rfl), hin, hpast, hexit, hterminal _ tierQueue_created]
        rfl
      · rw [hin, hterminal _ rejectQueue_created]
        exact Nat.zero_le _
  · have hlive : (flowEnqueueExiting w k p enqFlags).isSome = false := by
      rw [← Bool.not_eq_true]
      exact fun hexit => nomatch h.direct.mpr hexit
    rw [hlive] at hpast
    rcases hjoin.verdictQueue with ⟨rfl, htier | ⟨cpu, rfl⟩⟩ | ⟨hc, rfl⟩
    · have hlt : dsq < scxDsqLocalOn := htier.lt.trans (by decide)
      have hmember : tierQueue dsq = true := decide_eq_true ⟨hlt, htier.lt.ne⟩
      have hreject : rejectQueue dsq = false := decide_eq_false htier.lt.ne
      constructor
      · rw [hamount (Or.inl rfl), hin, hpast, hmember, decide_eq_false (Nat.not_le.mpr hlt)]
        rfl
      · rw [hin, hreject]
        exact Nat.zero_le _
    · constructor
      · rw [hamount (Or.inl rfl), hin, hpast, hterminal _ tierQueue_created,
          decide_eq_true (scxLocalOn_ge cpu)]
        rfl
      · rw [hin, hterminal _ rejectQueue_created]
        exact Nat.zero_le _
    · have hmember : tierQueue flowOverflowDsq = false := decide_eq_false fun h => h.2 rfl
      constructor
      · rw [hamount (Or.inl rfl), hin, hpast, hmember]
        rcases hc with rfl | rfl
        · rfl
        · rfl
      · rw [hamount (Or.inr (Or.inl rfl)), hamount (Or.inr (Or.inr rfl)), hin]
        rcases hc with rfl | rfl
        · simp [rejectQueue]
        · simp [rejectQueue]

/-- Only an enqueue is admitted. -/
theorem admits_eq_zero {t : Turn} (ht : ∀ k p enqFlags, t ≠ .call ⟨k, .enqueue p enqFlags⟩) :
    amountOf .admits (turnEffects w t) = 0 := by
  have hnone {es : List Effect} (h : ∀ e ∈ es, e.counts .admits = false) :
      amountOf .admits es = 0 := by
    unfold amountOf
    rw [countsOf_eq_nil.mpr h]
    rfl
  have hbracket {e : Effect} (h : e.isBracket = true) : e.counts .admits = false := by
    cases e with
    | count c n =>
      cases c with
      | gateRejects => rfl
      | _ => cases h
    | _ => rfl
  have hone {e x : Effect} (hx : x.counts .admits = false) (he : e ∈ [x]) :
      e.counts .admits = false := List.mem_singleton.mp he ▸ hx
  cases t with
  | call c =>
    obtain ⟨k, op⟩ := c
    have haround {q : TaskRef} {o : OpOut} (h : op.onTask w k = some (q, o))
        (hstop : ∀ p runnable, op ≠ .stopping p runnable) :
        amountOf .admits (turnEffects w (.call ⟨k, op⟩)) = 0 := by
      rw [turnEffects_onTask h]
      refine hnone fun e he => hbracket (bracket_effects h ?_ hstop e he)
      rintro p enqFlags rfl
      exact ht k p enqFlags rfl
    cases op with
    | enqueue p enqFlags => exact absurd rfl (ht k p enqFlags)
    | stopping p runnable =>
      rw [turnEffects_onTask rfl]
      refine hnone fun e he => ?_
      rcases flowStopping_ends w k p runnable e he with ⟨start, delta, rfl⟩ | hend
      · rfl
      · cases hend with
        | _ => rfl
    | running p => exact haround rfl fun _ _ h => nomatch h
    | enable p => exact haround rfl fun _ _ h => nomatch h
    | disable p => exact haround rfl fun _ _ h => nomatch h
    | exitTask p => exact haround rfl fun _ _ h => nomatch h
    | dispatch cpu =>
      show amountOf .admits (passCounts w k cpu) = 0
      unfold passCounts
      split
      · rfl
      · rfl
    | cpuRelease cpu =>
      refine hnone fun e he => ?_
      change e ∈ (if cpu ≥ 0 ∧ !flowCpuLive w cpu.toNat then [Effect.count .gateRejects 1] else [])
        at he
      split at he
      · exact hone rfl he
      · exact absurd he List.not_mem_nil
    | _ => rfl
  | select k cap p prevCpu =>
    refine hnone fun e he => ?_
    obtain ⟨x, -, hx⟩ := List.mem_flatMap.mp he
    cases x with
    | gateReject => exact hone rfl hx
    | storeCursor cpu next => exact absurd hx List.not_mem_nil
  | _ => rfl

/-- Every turn counts the verdicts it joins the queues with. -/
theorem turn_joins (w : World) (t : Turn) : TellsJoins w t := by
  by_cases ht : ∃ k p enqFlags, t = .call ⟨k, .enqueue p enqFlags⟩
  · obtain ⟨k, p, enqFlags, rfl⟩ := ht
    exact enqueue_joins w k p enqFlags
  · have hother (k p enqFlags) : t ≠ .call ⟨k, .enqueue p enqFlags⟩ :=
      fun h => ht ⟨k, p, enqFlags, h⟩
    have hjoined (C : ℕ → Bool) : joined C w t = 0 := by
      cases t with
      | call c =>
        obtain ⟨k, op⟩ := c
        cases op with
        | enqueue p enqFlags => exact absurd rfl (hother k p enqFlags)
        | _ => rfl
      | _ => rfl
    have hpast : bypassed w t = 0 := by
      cases t with
      | call c =>
        obtain ⟨k, op⟩ := c
        cases op with
        | enqueue p enqFlags => exact absurd rfl (hother k p enqFlags)
        | _ => rfl
      | _ => rfl
    constructor
    · rw [admits_eq_zero hother, hjoined, hpast]
    · rw [hjoined]
      exact Nat.zero_le _

/-- What a pass moves comes off the created queues. -/
theorem Stages.log_lt {cpu : ℕ} {s s' : Pass} (h : Stages k cpu s s')
    (hs : ∀ v ∈ s.log, v.dsq < scxDsqLocalOn) : ∀ v ∈ s'.log, v.dsq < scxDsqLocalOn := by
  induction h with
  | refl => exact hs
  | tail _ hstage ih =>
    obtain ⟨dsq, new, hlt, hstage⟩ := hstage
    intro v hv
    rw [hstage.log] at hv
    rcases List.mem_append.mp hv with hv | hv
    · exact ih v hv
    · rw [hstage.queue.dsq_eq v hv]
      exact hlt

theorem passLog_lt (w : World) (t : Turn) : ∀ v ∈ passLog w t, v.dsq < scxDsqLocalOn := by
  by_cases hpass : ∃ k cpu, t = .call ⟨k, .dispatch cpu⟩
  · obtain ⟨k, cpu, rfl⟩ := hpass
    show ∀ v ∈ (flowDispatchPass w k cpu true).log, v.dsq < scxDsqLocalOn
    rcases flowDispatch_cases w k cpu with ⟨hlog, -⟩ | ⟨c, rfl, hl, -⟩
    · rw [hlog]
      exact fun v hv => absurd hv List.not_mem_nil
    · obtain ⟨s, hs, -, hlog, -⟩ := flowDispatch_stages (k := k) hl
      rw [← hlog]
      exact hs.log_lt fun v hv => absurd hv List.not_mem_nil
  · rw [passLog_eq_nil fun k cpu ht => hpass ⟨k, cpu, ht⟩]
    exact fun v hv => absurd hv List.not_mem_nil

/-- The moves of a pass are those off the tiers and the reclaims. -/
theorem moves_split (w : World) (t : Turn) :
    movedOff rejectQueue w t = (reclaimsOf (passLog w t)).length
      ∧ movedOff tierQueue w t + (reclaimsOf (passLog w t)).length
        = (movesOf (passLog w t)).length := by
  have hreject : movedOff rejectQueue w t = (reclaimsOf (passLog w t)).length :=
    List.countP_eq_length_filter
  have htier : movedOff tierQueue w t
      = (movesOf (passLog w t)).countP fun v => decide ¬rejectQueue v.dsq = true := by
    refine List.countP_congr fun v hv => ?_
    have hlt := passLog_lt w t v (mem_movesOf.mp hv).1
    simp [tierQueue, rejectQueue, hlt]
  refine ⟨hreject, ?_⟩
  rw [← hreject, htier, Nat.add_comm]
  exact (List.length_eq_countP_add_countP (fun v : Visit => rejectQueue v.dsq)).symm

end Counted

section Runs

theorem boot_waiting (C : ℕ → Bool) (nrCpuIds nrNodeIds : ℕ) (topoNode : ℕ → ℕ) :
    Shelf.Finite (World.boot nrCpuIds nrNodeIds topoNode).dsq
      ∧ waiting C (World.boot nrCpuIds nrNodeIds topoNode) = 0 := by
  refine ⟨?_, ?_⟩
  · exact Set.finite_empty.subset fun i hi => hi rfl
  · have hnone (dsq : ℕ) :
        (Shelf.only C (World.boot nrCpuIds nrNodeIds topoNode).dsq dsq).countP (fun _ => true) = 0 := by
      simp [Shelf.only, World.boot]
    exact finsum_eq_zero_of_forall_eq_zero hnone

/-- From boot on, while the daemon's list names every CPU that executes a turn once and no counter
comes to 2^64, a poll tells the backlog.  The admissions and the reclaims are the tasks that wait in
the tiers, those the kernel took off them, those that went past them and those that passes moved.
The reject queue holds at most what was rejected less what was reclaimed. -/
theorem run_backlog (nrCpuIds nrNodeIds : ℕ) (topoNode : ℕ → ℕ) (s : Scheduler) (ts : List Turn)
    (elapsed : ℕ)
    (hon : core.Along (ExecutesOn s.onlineCpus) (World.boot nrCpuIds nrNodeIds topoNode) ts)
    (hroom : ∀ c, core.total (fun w t => amountOf c (turnEffects w t))
      (World.boot nrCpuIds nrNodeIds topoNode) ts < 2 ^ 64) :
    let w := World.boot nrCpuIds nrNodeIds topoNode
    let w' := core.exec w ts
    let page := (getMetrics w' s elapsed).counters
    waiting tierQueue w' + core.total (takenOff tierQueue) w ts + core.total bypassed w ts
        + ((page .localMoves).toNat + (page .nodeMoves).toNat + (page .machineMoves).toNat)
        = (page .admits).toNat + (page .redReclaims).toNat
      ∧ (w'.dsq flowOverflowDsq).length + core.total (takenOff rejectQueue) w ts
          + (page .redReclaims).toNat
        ≤ (page .redRejects).toNat + (page .gateRejects).toNat := by
  intro w w' page
  have hpage (c : Counter) :
      (page c).toNat = core.total (fun w t => amountOf c (turnEffects w t)) w ts :=
    getMetrics_run nrCpuIds nrNodeIds topoNode s ts elapsed hon (hroom c)
  have hreclaims : (page .redReclaims).toNat = core.total (movedOff rejectQueue) w ts := by
    rw [hpage, core.total_ext fun w t => (turn_tells w t).reclaims,
      core.total_ext fun w t => (moves_split w t).1]
  have hmoves : (page .localMoves).toNat + (page .nodeMoves).toNat + (page .machineMoves).toNat
      = core.total (movedOff tierQueue) w ts + core.total (movedOff rejectQueue) w ts := by
    rw [hpage, hpage, hpage, ← core.total_add, ← core.total_add, ← core.total_add]
    refine core.total_ext (fun w t => ?_) w ts
    rw [(turn_tells w t).moves, (moves_split w t).1, (moves_split w t).2]
  constructor
  · obtain ⟨hf, hempty⟩ := boot_waiting tierQueue nrCpuIds nrNodeIds topoNode
    have hrun := run_class w ts tierQueue_created hf
    have hadmits : (page .admits).toNat
        = core.total (joined tierQueue) w ts + core.total bypassed w ts := by
      rw [hpage, ← core.total_add]
      exact core.total_ext (fun w t => (turn_joins w t).admits) w ts
    rw [hempty, Nat.zero_add] at hrun
    change waiting tierQueue w' + _ = _ at hrun
    rw [hmoves, hadmits, hreclaims]
    omega
  · obtain ⟨hf, hempty⟩ := boot_waiting rejectQueue nrCpuIds nrNodeIds topoNode
    have hrun := run_class w ts rejectQueue_created hf
    have hrejects : core.total (joined rejectQueue) w ts
        ≤ (page .redRejects).toNat + (page .gateRejects).toNat := by
      rw [hpage, hpage, ← core.total_add]
      exact core.total_le (fun w t => (turn_joins w t).rejects) w ts
    have hlength : waiting rejectQueue w' = (w'.dsq flowOverflowDsq).length := by
      rw [← List.countP_true]
      exact Shelf.held_only_one w'.dsq flowOverflowDsq
    rw [hempty, Nat.zero_add] at hrun
    change waiting rejectQueue w' + _ = _ at hrun
    rw [hreclaims, ← hlength]
    omega

theorem run_backlog_reclaimsOne :
    let w := World.boot 2 1 fun _ => 0
    let w' := core.exec w reclaimsOne
    let page := (getMetrics w' Scheduler.pair 5).counters
    ((page .gateRejects).toNat = 1 ∧ (page .redReclaims).toNat = 1)
      ∧ waiting tierQueue w' + core.total (takenOff tierQueue) w reclaimsOne
          + core.total bypassed w reclaimsOne
          + ((page .localMoves).toNat + (page .nodeMoves).toNat + (page .machineMoves).toNat)
        = (page .admits).toNat + (page .redReclaims).toNat
      ∧ (w'.dsq flowOverflowDsq).length + core.total (takenOff rejectQueue) w reclaimsOne
          + (page .redReclaims).toNat
        ≤ (page .redRejects).toNat + (page .gateRejects).toNat :=
  ⟨⟨by decide +kernel, by decide +kernel⟩,
    run_backlog 2 1 (fun _ => 0) Scheduler.pair reclaimsOne 5 (by decide +kernel) fun c => by
      cases c <;> decide +kernel⟩

end Runs

end ScxFlow
