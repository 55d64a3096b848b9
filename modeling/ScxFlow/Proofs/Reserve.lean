import ScxFlow.Proofs.Credit
import ScxFlow.Proofs.Shortcut
import ScxFlow.Proofs.Stranded

/-!
# Reservations of the reclaim

A reject that the peeked credit funds reserves its price before the kernel is asked to move it, and
a move that the kernel refuses ends the walk with the price spent [flowRejectReclaimOne_credit].
Where the cell has lost the credit since the peek the reserve fails, and the walk goes on to the
next reject even though the tiers are empty [flowRejectReclaimRaced_iff].
-/

namespace ScxFlow

variable {w : World} {k : Kernel} {cpu : ℤ} {tiersEmpty : Bool} {s : Pass}

section Candidate

/-- The laxity of a reject at the clock of the walk. -/
def FlowReclaimTail.laxity (t : FlowReclaimTail) : UInt64 :=
  flowRedLaxity t.rctx.deadline t.now (reclaimCost t.rctx)

/-- A candidate that passes everything but the credit. -/
def FlowReclaimTail.fits (t : FlowReclaimTail) : Bool :=
  decide (t.laxity ≠ 0) && (t.tiersEmpty || flowReclaimIsAged t.rctx.waitAt t.now)
    && flowReclaimKeyOk t.rctx t.rctx.deadline t.now && flowMaskOk t.cpu t.q

theorem FlowReclaimTail.fits_iff {t : FlowReclaimTail} (h : t.tiersEmpty = true) :
    t.fits = true ↔ t.laxity ≠ 0 ∧ flowReclaimKeyOk t.rctx t.rctx.deadline t.now = true
      ∧ flowMaskOk t.cpu t.q = true := by
  simp [FlowReclaimTail.fits, h, and_assoc]

/-- The peeked credit covers the candidate. -/
def FlowReclaimTail.funded (t : FlowReclaimTail) : Bool :=
  flowRedReclaimOk t.credit (flowReclaimExceed t.rctx t.now) t.laxity

/-- What a funded candidate reserves. -/
def FlowReclaimTail.need (t : FlowReclaimTail) : UInt64 :=
  flowCreditNeed (flowReclaimExceed t.rctx t.now)

theorem flowReclaimCandidateOk_eq (cell : UInt64) (t : FlowReclaimTail) :
    flowReclaimCandidateOk cell t = if t.fits then
      if t.funded then flowCreditConsume cell (flowReclaimExceed t.rctx t.now)
      else if t.tiersEmpty then some cell else none
    else none := by
  show (if t.laxity = 0 then none
    else if !t.tiersEmpty && !flowReclaimIsAged t.rctx.waitAt t.now then none
    else if !flowReclaimKeyOk t.rctx t.rctx.deadline t.now then none
    else if !flowMaskOk t.cpu t.q then none
    else if !t.tiersEmpty && !t.funded then none
    else if t.funded then flowCreditConsume cell (flowReclaimExceed t.rctx t.now)
    else some cell) = _
  unfold FlowReclaimTail.fits
  by_cases hl : t.laxity = 0
  · simp [hl]
  · simp only [hl, ↓reduceIte, ne_eq, not_false_eq_true, decide_true, Bool.true_and]
    generalize flowReclaimIsAged t.rctx.waitAt t.now = aged
    generalize t.tiersEmpty = empty
    generalize t.funded = funded
    cases flowReclaimKeyOk t.rctx t.rctx.deadline t.now
    · simp
    · cases flowMaskOk t.cpu t.q
      · simp
      · cases empty <;> cases aged <;> cases funded <;> simp

theorem flowCreditNeed_ne_zero (exceed : UInt64) : flowCreditNeed exceed ≠ 0 := by
  unfold flowCreditNeed
  split_ifs with h
  · exact h
  · decide

/-- A candidate that passes leaves the cell, or takes its price off it where it is funded. -/
theorem flowReclaimCandidateOk_eq_some {cell c : UInt64} {t : FlowReclaimTail} :
    flowReclaimCandidateOk cell t = some c ↔ t.fits = true ∧ if t.funded
      then t.need ≤ cell ∧ flowRedEmaxNs ≤ cell ∧ c = cell - t.need
      else t.tiersEmpty = true ∧ c = cell := by
  rw [flowReclaimCandidateOk_eq]
  cases t.fits
  · simp
  · cases t.funded
    · cases t.tiersEmpty
      · simp
      · simp [eq_comm]
    · simp only [↓reduceIte, true_and]
      exact flowCreditConsume_eq_some

end Candidate

section Reservation

/-- The tail of one queued task with the state `t`. -/
def reclaimTail (k : Kernel) (w : World) (cpu : ℤ) (tiersEmpty : Bool) (q : TaskRef)
    (t : FlowTaskCtx) : FlowReclaimTail :=
  ⟨t, k.task q, cpu, k.now, w.reclaimCredit, tiersEmpty⟩

/-- The gates of a call that gets to its walk. -/
structure ReclaimWalks (cpu queued : ℤ) (tiersEmpty : Bool) (s : Pass) : Prop where
  nonneg : 0 ≤ cpu
  live : flowCpuLive s.world cpu.toNat = true
  visits : s.visits < flowDispatchMaxVisit
  queued : 0 < queued
  paid : flowReclaimEarlySkip s.world.reclaimCredit tiersEmpty = false

/-- The walk of a call. -/
def reclaimWalk (k : Kernel) (cpu : ℤ) (tiersEmpty : Bool) (s : Pass) : Scan Entry :=
  Scan.walk (fun e => (flowReclaimTest k s.world cpu tiersEmpty e.task).isSome)
    (flowDispatchMaxVisit - s.visits) (s.world.dsq flowOverflowDsq)

/-- The pass once the walk has stopped at `e`. -/
def reclaimPaid (k : Kernel) (cpu : ℤ) (tiersEmpty : Bool) (s : Pass) (e : Entry) : Pass :=
  let cell := (flowReclaimTest k s.world cpu tiersEmpty e.task).getD s.world.reclaimCredit
  { s with world := { s.world with reclaimCredit := cell } }

/-- A call reserves `need` for `e`: its walk stops at `e`, which the credit funds. -/
structure Reserves (k : Kernel) (cpu queued : ℤ) (tiersEmpty : Bool) (s : Pass) (e : Entry)
    (need : UInt64) : Prop where
  walks : ReclaimWalks cpu queued tiersEmpty s
  stops : (reclaimWalk k cpu tiersEmpty s).hit = some e
  funded : ∃ t, s.world.taskCtx e.task = some t
    ∧ (reclaimTail k s.world cpu tiersEmpty e.task t).funded = true
    ∧ need = (reclaimTail k s.world cpu tiersEmpty e.task t).need

theorem flowRejectReclaimOne_skips {queued : ℤ} (h : ¬ ReclaimWalks cpu queued tiersEmpty s) :
    flowRejectReclaimOne k cpu queued tiersEmpty s = (s, 0) := by
  unfold flowRejectReclaimOne
  split_ifs with h₁ h₂ h₃ h₄ h₅
  any_goals rfl
  refine absurd ⟨by omega, ?_, by omega, by omega, ?_⟩ h
  · simpa using h₂
  · simpa using h₅

theorem flowRejectReclaimOne_walks {queued : ℤ} (h : ReclaimWalks cpu queued tiersEmpty s) :
    flowRejectReclaimOne k cpu queued tiersEmpty s
      = match (reclaimWalk k cpu tiersEmpty s).hit with
        | none => (s.walked flowOverflowDsq cpu.toNat (reclaimWalk k cpu tiersEmpty s) false, 0)
        | some e =>
          ((reclaimPaid k cpu tiersEmpty s e).walked flowOverflowDsq cpu.toNat
              (reclaimWalk k cpu tiersEmpty s) (flowMoveCandidate k flowOverflowDsq cpu e.task),
            if flowMoveCandidate k flowOverflowDsq cpu e.task then 1 else 0) := by
  unfold flowRejectReclaimOne
  rw [if_neg (not_lt.mpr h.nonneg), if_neg (by simp [h.live]), if_neg (not_le.mpr h.visits),
    if_neg (not_le.mpr h.queued), if_neg (by simp [h.paid])]
  rfl

theorem walked_credit (dsq c : ℕ) (r : Scan Entry) (moved : Bool) :
    (s.walked dsq c r moved).world.reclaimCredit = s.world.reclaimCredit := by
  unfold Pass.walked
  simp only
  split
  · rfl
  · split <;> rfl

/-- The candidate a walk stops at has state, and passed. -/
theorem reclaimWalk_hit {e : Entry} (h : (reclaimWalk k cpu tiersEmpty s).hit = some e) :
    ∃ t c, s.world.taskCtx e.task = some t
      ∧ flowReclaimTest k s.world cpu tiersEmpty e.task = some c
      ∧ flowReclaimCandidateOk s.world.reclaimCredit
        (reclaimTail k s.world cpu tiersEmpty e.task t) = some c := by
  have hok := Scan.ok_of_hit
    (fun e : Entry => (flowReclaimTest k s.world cpu tiersEmpty e.task).isSome) _ _ h
  obtain ⟨c, hc⟩ := Option.isSome_iff_exists.mp hok
  have htest := hc
  unfold flowReclaimTest at hc
  split at hc
  · cases hc
  · exact ⟨_, c, ‹_›, htest, hc⟩

theorem flowMoveCandidate_of_mask {dsq : ℕ} {p : TaskRef} (hm : flowMaskOk cpu (k.task p) = true) :
    flowMoveCandidate k dsq cpu p = k.dsqMove dsq p := by
  unfold flowMoveCandidate
  have hcpu : ¬ cpu < 0 := by
    intro hneg
    simp [flowMaskOk, hneg] at hm
  rw [if_neg hcpu, if_neg (by simp [hm])]

/-- The credit after one call with no other CPU on the cell.  A call that returns zero leaves it,
unless the kernel refused the reject it had reserved for; a call that returns one takes one
reservation at most. -/
theorem flowRejectReclaimOne_credit (k : Kernel) (cpu queued : ℤ) (tiersEmpty : Bool) (s : Pass) :
    ((flowRejectReclaimOne k cpu queued tiersEmpty s).2 = 0
      ∨ (flowRejectReclaimOne k cpu queued tiersEmpty s).2 = 1)
    ∧ ((flowRejectReclaimOne k cpu queued tiersEmpty s).2 = 0 →
        ((¬ ∃ e need, Reserves k cpu queued tiersEmpty s e need
            ∧ k.dsqMove flowOverflowDsq e.task = false) →
          (flowRejectReclaimOne k cpu queued tiersEmpty s).1.world.reclaimCredit
            = s.world.reclaimCredit)
        ∧ ∀ e need, Reserves k cpu queued tiersEmpty s e need →
          k.dsqMove flowOverflowDsq e.task = false ∧ need ≠ 0 ∧ need ≤ s.world.reclaimCredit
          ∧ (flowRejectReclaimOne k cpu queued tiersEmpty s).1.world.reclaimCredit
            = s.world.reclaimCredit - need)
    ∧ ((flowRejectReclaimOne k cpu queued tiersEmpty s).2 = 1 →
        (flowRejectReclaimOne k cpu queued tiersEmpty s).1.world.reclaimCredit
          = s.world.reclaimCredit
        ∨ ∃ e need, Reserves k cpu queued tiersEmpty s e need ∧ need ≤ s.world.reclaimCredit
          ∧ (flowRejectReclaimOne k cpu queued tiersEmpty s).1.world.reclaimCredit
            = s.world.reclaimCredit - need) := by
  by_cases hw : ReclaimWalks cpu queued tiersEmpty s
  swap
  · rw [flowRejectReclaimOne_skips hw]
    exact ⟨Or.inl rfl, fun _ => ⟨fun _ => rfl, fun e need h => absurd h.walks hw⟩,
      fun _ => Or.inl rfl⟩
  rw [flowRejectReclaimOne_walks hw]
  rcases hhit : (reclaimWalk k cpu tiersEmpty s).hit with _ | e
  · refine ⟨Or.inl rfl, fun _ => ⟨fun _ => walked_credit .., fun e need h => ?_⟩,
      fun h => absurd h (by simp)⟩
    have hstops := h.stops
    rw [hhit] at hstops
    cases hstops
  · obtain ⟨t, c, ht, htest, hok⟩ := reclaimWalk_hit hhit
    obtain ⟨hfits, hpaid⟩ := flowReclaimCandidateOk_eq_some.mp hok
    have hmask : flowMaskOk cpu (k.task e.task) = true := by
      unfold FlowReclaimTail.fits at hfits
      exact (Bool.and_eq_true_iff.mp hfits).2
    have hcredit (moved : Bool) : ((reclaimPaid k cpu tiersEmpty s e).walked flowOverflowDsq
        cpu.toNat (reclaimWalk k cpu tiersEmpty s) moved).world.reclaimCredit = c := by
      rw [walked_credit]
      unfold reclaimPaid
      rw [htest]
      rfl
    simp only [hcredit, flowMoveCandidate_of_mask hmask]
    have hone (need : UInt64) (e' : Entry) (h : Reserves k cpu queued tiersEmpty s e' need) :
        e' = e ∧ (reclaimTail k s.world cpu tiersEmpty e.task t).funded = true
          ∧ need = (reclaimTail k s.world cpu tiersEmpty e.task t).need := by
      obtain rfl : e' = e := Option.some.inj (h.stops.symm.trans hhit)
      obtain ⟨t', ht', hf, hn⟩ := h.funded
      obtain rfl : t' = t := Option.some.inj (ht'.symm.trans ht)
      exact ⟨rfl, hf, hn⟩
    cases hf : (reclaimTail k s.world cpu tiersEmpty e.task t).funded
    · rw [hf, if_neg (by simp)] at hpaid
      refine ⟨?_, fun _ => ⟨fun _ => hpaid.2, fun e' need h => ?_⟩, fun _ => Or.inl hpaid.2⟩
      · split_ifs <;> simp
      · rw [(hone need e' h).2.1] at hf
        cases hf
    · rw [hf, if_pos rfl] at hpaid
      have hres : Reserves k cpu queued tiersEmpty s e
          (reclaimTail k s.world cpu tiersEmpty e.task t).need := ⟨hw, hhit, t, ht, hf, rfl⟩
      refine ⟨?_, fun hzero => ⟨fun hno => ?_, fun e' need h => ?_⟩,
        fun _ => Or.inr ⟨e, _, hres, hpaid.1, hpaid.2.2⟩⟩
      · split_ifs <;> simp
      · refine absurd ⟨e, _, hres, ?_⟩ hno
        simpa using hzero
      · obtain ⟨rfl, -, rfl⟩ := hone need e' h
        exact ⟨by simpa using hzero, flowCreditNeed_ne_zero _, hpaid.1, hpaid.2.2⟩

/-- A view at `now` in which the kernel moves no task: each has left its queue meanwhile. -/
def Kernel.refusing (now : UInt64) : Kernel := { Kernel.plain now with dsqMove := fun _ _ => false }

/-- The reservation for the aged reject is spent, though the kernel refuses to move it. -/
theorem flowRejectReclaimOne_spends_refused :
    (flowRejectReclaimOne (Kernel.refusing 200000000) 0 1 false (Pass.start World.agedReject 8)).2
        = 0
      ∧ (flowRejectReclaimOne (Kernel.refusing 200000000) 0 1 false
          (Pass.start World.agedReject 8)).1.world.reclaimCredit ≠ World.agedReject.reclaimCredit :=
  ⟨by decide, by decide⟩

end Reservation

section Raced

/-- The test of the walk with the credit it peeked, on the cell as it finds it. -/
def flowReclaimRacedTest (k : Kernel) (w : World) (cpu : ℤ) (tiersEmpty : Bool)
    (credit cell : UInt64) (q : TaskRef) : Option UInt64 :=
  match w.taskCtx q with
  | none => none
  | some rctx => flowReclaimCandidateOk cell ⟨rctx, k.task q, cpu, k.now, credit, tiersEmpty⟩

def racedWalk (k : Kernel) (cpu : ℤ) (tiersEmpty : Bool) (credit : UInt64)
    (cell : TaskRef → UInt64) (s : Pass) : Scan Entry :=
  Scan.walk
    (fun e => (flowReclaimRacedTest k s.world cpu tiersEmpty credit (cell e.task) e.task).isSome)
    (flowDispatchMaxVisit - s.visits) (s.world.dsq flowOverflowDsq)

/-- `flow_reject_reclaim_one` while other CPUs spend: the walk peeked `credit`, and finds the cell
at `cell q` when it gets to `q`. -/
def flowRejectReclaimRaced (k : Kernel) (cpu queued : ℤ) (tiersEmpty : Bool) (credit : UInt64)
    (cell : TaskRef → UInt64) (s : Pass) : Pass × ℕ :=
  if cpu < 0 then (s, 0)
  else if !flowCpuLive s.world cpu.toNat then (s, 0)
  else if s.visits ≥ flowDispatchMaxVisit then (s, 0)
  else if queued ≤ 0 then (s, 0)
  else if flowReclaimEarlySkip credit tiersEmpty then (s, 0)
  else
    let r := racedWalk k cpu tiersEmpty credit cell s
    match r.hit with
    | none => (s.walked flowOverflowDsq cpu.toNat r false, 0)
    | some e =>
      let test := flowReclaimRacedTest k s.world cpu tiersEmpty credit (cell e.task) e.task
      let cell := test.getD (cell e.task)
      let moved := flowMoveCandidate k flowOverflowDsq cpu e.task
      let s := { s with world := { s.world with reclaimCredit := cell } }
      (s.walked flowOverflowDsq cpu.toNat r moved, if moved then 1 else 0)

/-- With no other CPU on the cell this is the call of the pass. -/
theorem flowRejectReclaimRaced_alone (k : Kernel) (cpu queued : ℤ) (tiersEmpty : Bool) (s : Pass) :
    flowRejectReclaimRaced k cpu queued tiersEmpty s.world.reclaimCredit
      (fun _ => s.world.reclaimCredit) s = flowRejectReclaimOne k cpu queued tiersEmpty s := rfl

/-- A reject with positive laxity, a fresh key and a mask that allows the CPU. -/
structure Reclaimable (k : Kernel) (w : World) (cpu : ℤ) (q : TaskRef) (t : FlowTaskCtx) :
    Prop where
  state : w.taskCtx q = some t
  laxity : flowRedLaxity t.deadline k.now (reclaimCost t) ≠ 0
  fresh : flowReclaimKeyOk t t.deadline k.now = true
  mask : flowMaskOk cpu (k.task q) = true

/-- The reserve of a reject does not fail: the peeked credit does not fund it, so that it needs
none, or the cell still covers it and the bound. -/
def ReserveHolds (credit cell : UInt64) (t : FlowTaskCtx) (now : UInt64) : Prop :=
  flowRedReclaimOk credit (flowReclaimExceed t now)
      (flowRedLaxity t.deadline now (reclaimCost t)) = false
    ∨ flowCreditNeed (flowReclaimExceed t now) ≤ cell ∧ flowRedEmaxNs ≤ cell

theorem flowReclaimRacedTest_isSome {credit cell : UInt64} {q : TaskRef} :
    (flowReclaimRacedTest k w cpu true credit cell q).isSome = true
      ↔ ∃ t, Reclaimable k w cpu q t ∧ ReserveHolds credit cell t k.now := by
  unfold flowReclaimRacedTest
  rcases hq : w.taskCtx q with _ | t
  · refine iff_of_false (by simp) ?_
    rintro ⟨t, ht, -⟩
    rw [ht.state] at hq
    cases hq
  · have hfits : (⟨t, k.task q, cpu, k.now, credit, true⟩ : FlowReclaimTail).fits = true
        ↔ Reclaimable k w cpu q t :=
      (FlowReclaimTail.fits_iff rfl).trans
        ⟨fun h => ⟨hq, h.1, h.2.1, h.2.2⟩, fun h => ⟨h.laxity, h.fresh, h.mask⟩⟩
    simp only [Option.isSome_iff_exists, flowReclaimCandidateOk_eq_some, hfits]
    constructor
    · rintro ⟨c, hr, hc⟩
      refine ⟨t, hr, ?_⟩
      unfold ReserveHolds
      split_ifs at hc with hf
      · exact Or.inr ⟨hc.1, hc.2.1⟩
      · exact Or.inl (Bool.not_eq_true _ ▸ hf)
    · rintro ⟨t', hr, hres⟩
      obtain rfl : t' = t := Option.some.inj (hr.state.symm.trans hq)
      rcases hres with hf | hc
      · refine ⟨cell, hr, ?_⟩
        rw [if_neg (by rw [Bool.not_eq_true]; exact hf)]
        simp
      · rcases hf : (⟨t', k.task q, cpu, k.now, credit, true⟩ : FlowReclaimTail).funded
        · exact ⟨cell, hr, by simp⟩
        · exact ⟨_, hr, by rw [if_pos rfl]; exact ⟨hc.1, hc.2, rfl⟩⟩

/-- With the tiers empty and moves that succeed, a call moves a task exactly when the window of its
walk holds a reclaimable reject whose reserve does not fail. -/
theorem flowRejectReclaimRaced_iff (k : Kernel) (cpu : ℕ) (credit : UInt64)
    (cell : TaskRef → UInt64) (s : Pass) (hl : flowCpuLive s.world cpu = true) (hm : MovesSucceed k cpu) :
    (flowRejectReclaimRaced k cpu (nrQueued s.world flowOverflowDsq) true credit cell s).2 = 1
      ↔ ∃ e ∈ (s.world.dsq flowOverflowDsq).take (flowDispatchMaxVisit - s.visits),
        ∃ t, Reclaimable k s.world cpu e.task t ∧ ReserveHolds credit (cell e.task) t k.now := by
  simp only [← flowReclaimRacedTest_isSome]
  unfold flowRejectReclaimRaced
  rw [if_neg (by omega), if_neg (by simp [hl])]
  split_ifs with hv hq he
  · refine iff_of_false (by simp) ?_
    rintro ⟨e, he, -⟩
    rw [Nat.sub_eq_zero_of_le hv] at he
    simp at he
  · refine iff_of_false (by simp) ?_
    rintro ⟨e, he, -⟩
    rw [← not_lt, nrQueued_pos, not_not] at hq
    rw [hq] at he
    simp at he
  · simp [flowReclaimEarlySkip] at he
  · simp only
    rcases hhit : (racedWalk k cpu true credit cell s).hit with _ | e
    · refine iff_of_false (by simp) ?_
      rintro ⟨e, he, hok⟩
      rw [racedWalk, Scan.hit_eq_none_iff] at hhit
      rw [hhit e he] at hok
      cases hok
    · have hok := Scan.ok_of_hit (fun e : Entry =>
        (flowReclaimRacedTest k s.world cpu true credit (cell e.task) e.task).isSome) _ _ hhit
      have hmem := Scan.mem_take_of_hit _ _ _ hhit
      obtain ⟨t, hr, -⟩ := flowReclaimRacedTest_isSome.mp hok
      have hmove : flowMoveCandidate k flowOverflowDsq cpu e.task = true := by
        rw [flowMoveCandidate_iff]
        have hmask : (k.task e.task).cpusPtr cpu = true := by simpa [flowMaskOk] using hr.mask
        exact ⟨hmask, hm _ _ hmask⟩
      simp only [hmove, ↓reduceIte, true_iff]
      exact ⟨e, hmem, hok⟩

/-- The aged reject of `World.agedReject` at 200 ms, on a host whose tiers are empty. -/
def World.loneReject : World := World.agedReject.setDsq (flowLocalDsq 0) []

/-- The peek funds the reject, the cell is spent by the time the walk gets to it, and no task moves
though the tiers are empty. -/
theorem flowRejectReclaimRaced_idles :
    flowCpuLive World.loneReject 0 = true ∧ MovesSucceed (Kernel.plain 200000000) 0
      ∧ (∃ e ∈ (World.loneReject.dsq flowOverflowDsq).take flowDispatchMaxVisit,
        Reclaimable (Kernel.plain 200000000) World.loneReject 0 e.task longReject)
      ∧ (flowRejectReclaimRaced (Kernel.plain 200000000) 0 1 true 256000 (fun _ => 0)
        (Pass.start World.loneReject 8)).2 = 0 :=
  ⟨by decide, fun _ _ _ => rfl, ⟨⟨0, 16256⟩, by decide, rfl, by decide, by decide, by decide⟩,
    by decide⟩

theorem flowRejectReclaimRaced_iff_lone : flowCpuLive World.loneReject 0 = true
    ∧ MovesSucceed (Kernel.plain 200000000) 0
    ∧ ((flowRejectReclaimRaced (Kernel.plain 200000000) (0 : ℕ)
          (nrQueued World.loneReject flowOverflowDsq) true 256000 (fun _ => 300000)
          (Pass.start World.loneReject 8)).2 = 1
      ↔ ∃ e ∈ (World.loneReject.dsq flowOverflowDsq).take (flowDispatchMaxVisit - 0),
        ∃ t, Reclaimable (Kernel.plain 200000000) World.loneReject (0 : ℕ) e.task t
          ∧ ReserveHolds 256000 300000 t 200000000) :=
  ⟨by decide, fun _ _ _ => rfl, flowRejectReclaimRaced_iff (Kernel.plain 200000000) 0 256000
    (fun _ => 300000) (Pass.start World.loneReject 8) (by decide) fun _ _ _ => rfl⟩

end Raced

end ScxFlow
