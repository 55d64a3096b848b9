import ScxFlow.Proofs.Conservation

/-!
# The local shortcut against the general sequence

With local work alone the shortcut leaves a pass after its local move.  The general sequence goes on
to the reject queue, and an aged and funded reject is reclaimed there under steady local load.  The
two end alike exactly when the reclaim has no slot, no visit or no candidate left.
-/

namespace ScxFlow

variable {w : World} {k : Kernel} {cpu : ℕ}

/-- A candidate that passes while the tiers hold work always spends credit. -/
theorem flowReclaimCandidateOk_spends {cell c : UInt64} {t : FlowReclaimTail}
    (ht : t.tiersEmpty = false) (h : flowReclaimCandidateOk cell t = some c) : c ≠ cell := by
  unfold flowReclaimCandidateOk at h
  simp only [ht, Bool.not_false, Bool.true_and] at h
  split_ifs at h with h₁ h₂ h₃ h₄ h₅ h₆
  · unfold flowCreditConsume at h
    simp only at h
    generalize hneed : (if flowReclaimExceed t.rctx t.now ≠ 0 then flowReclaimExceed t.rctx t.now
      else flowRedEmaxNs) = need at h
    have hpos : need ≠ 0 := by
      rw [← hneed]
      split
      · assumption
      · decide
    split_ifs at h with h₇ h₈
    rw [← Option.some.inj h]
    rw [UInt64.lt_iff_toNat_lt, not_lt] at h₇
    intro heq
    have hsub := congrArg UInt64.toNat heq
    rw [toNat_sub_of_le h₇] at hsub
    exact hpos (UInt64.toNat_inj.mp (by simp; omega))
  · simp_all

/-- What keeps the reclaim of a pass with tier work from spending. -/
def ReclaimIdle (k : Kernel) (cpu : ℕ) (s : Pass) : Prop :=
  s.left = 0 ∨ flowDispatchMaxVisit ≤ s.visits ∨ s.world.dsq flowOverflowDsq = []
    ∨ s.world.reclaimCredit < flowRedEmaxNs
    ∨ ∀ e ∈ (s.world.dsq flowOverflowDsq).take (flowDispatchMaxVisit - s.visits),
      flowReclaimTest k s.world cpu false e.task = none

section Reclaim

variable {s : Pass} {d : Depths}

theorem flowReclaimEarlySkip_busy (credit : UInt64) :
    flowReclaimEarlySkip credit false = decide (credit < flowRedEmaxNs) := by
  simp [flowReclaimEarlySkip]

theorem flowDispatchReclaim_eq (hd : 0 < d.lq0) (hleft : s.left ≠ 0)
    (hv : s.visits < flowDispatchMaxVisit) (hq : s.world.dsq flowOverflowDsq ≠ [])
    {r : Pass × ℕ} (hr : flowRejectReclaimOne k cpu (nrQueued s.world flowOverflowDsq) false s = r) :
    flowDispatchReclaim k cpu d s = { r.1 with
      left := r.1.left - if r.2 > r.1.left then r.1.left else r.2
      localMoved := r.1.localMoved + if r.2 > r.1.left then r.1.left else r.2
      reclaimMoved := r.1.reclaimMoved + if r.2 > r.1.left then r.1.left else r.2 } := by
  have hfull : decide (d.lq0 ≤ 0 ∧ d.nq0 ≤ 0 ∧ d.mq0 ≤ 0) = false := by
    rw [decide_eq_false_iff_not]
    omega
  unfold flowDispatchReclaim
  rw [if_pos ⟨hleft, hv⟩, hfull]
  simp only
  rw [if_pos (nrQueued_pos.mpr hq), hr]

/-- The reject walk of a pass whose tiers held work. -/
def rejectWalk (k : Kernel) (cpu : ℕ) (s : Pass) : Scan Entry :=
  Scan.walk (fun e => (flowReclaimTest k s.world cpu false e.task).isSome)
    (flowDispatchMaxVisit - s.visits) (s.world.dsq flowOverflowDsq)

theorem rejectWalk_hit_none : (rejectWalk k cpu s).hit = none ↔
    ∀ e ∈ (s.world.dsq flowOverflowDsq).take (flowDispatchMaxVisit - s.visits),
      flowReclaimTest k s.world cpu false e.task = none := by
  rw [rejectWalk, Scan.hit_eq_none_iff]
  simp

theorem flowRejectReclaimOne_eq (hl : flowCpuLive s.world cpu = true)
    (hv : s.visits < flowDispatchMaxVisit) (hq : s.world.dsq flowOverflowDsq ≠ [])
    (hc : ¬ s.world.reclaimCredit < flowRedEmaxNs) :
    flowRejectReclaimOne k cpu (nrQueued s.world flowOverflowDsq) false s
      = match (rejectWalk k cpu s).hit with
        | none => (s.walked flowOverflowDsq cpu (rejectWalk k cpu s) false, 0)
        | some e =>
          (({ s with world := { s.world with reclaimCredit :=
              (flowReclaimTest k s.world cpu false e.task).getD s.world.reclaimCredit } } :
              Pass).walked flowOverflowDsq cpu (rejectWalk k cpu s)
              (flowMoveCandidate k flowOverflowDsq cpu e.task),
            if flowMoveCandidate k flowOverflowDsq cpu e.task then 1 else 0) := by
  have hpos := nrQueued_pos.mpr hq
  unfold flowRejectReclaimOne
  rw [if_neg (by omega), if_neg (by simp [hl]), if_neg (by omega), if_neg (by omega),
    flowReclaimEarlySkip_busy, if_neg (by rw [decide_eq_true_eq]; exact hc)]
  rfl

theorem flowRejectReclaimOne_poor (hc : s.world.reclaimCredit < flowRedEmaxNs) (queued : ℤ) :
    flowRejectReclaimOne k cpu queued false s = (s, 0) := by
  unfold flowRejectReclaimOne
  rw [flowReclaimEarlySkip_busy, decide_eq_true hc, if_pos rfl]
  split_ifs
  all_goals rfl

theorem flowDispatchReclaim_idle (hl : flowCpuLive s.world cpu = true) (hd : 0 < d.lq0)
    (h : ReclaimIdle k cpu s) : (flowDispatchReclaim k cpu d s).world = s.world
      ∧ (flowDispatchReclaim k cpu d s).tally = s.tally := by
  by_cases hspent : s.left = 0 ∨ flowDispatchMaxVisit ≤ s.visits
  · rw [flowDispatchReclaim_of_spent hspent]
    exact ⟨rfl, rfl⟩
  rw [not_or] at hspent
  by_cases hq : s.world.dsq flowOverflowDsq = []
  · unfold flowDispatchReclaim
    rw [if_pos ⟨hspent.1, by omega⟩]
    simp only
    rw [if_neg (by rw [gt_iff_lt, nrQueued_pos]; exact not_not.mpr hq)]
    exact ⟨rfl, rfl⟩
  by_cases hc : s.world.reclaimCredit < flowRedEmaxNs
  · rw [flowDispatchReclaim_eq hd hspent.1 (by omega) hq (flowRejectReclaimOne_poor hc _)]
    exact ⟨rfl, rfl⟩
  · have hnone : (rejectWalk k cpu s).hit = none := by
      rw [rejectWalk_hit_none]
      rcases h with h | h | h | h | h
      · exact absurd h hspent.1
      · exact absurd h hspent.2
      · exact absurd h hq
      · exact absurd h hc
      · exact h
    have hr := flowRejectReclaimOne_eq (k := k) hl (by omega) hq hc
    rw [hnone] at hr
    rw [flowDispatchReclaim_eq hd hspent.1 (by omega) hq hr]
    simp [Pass.walked, hnone, Pass.tally]

/-- Any other reclaim spends credit, whether the kernel moves its task or not. -/
theorem flowDispatchReclaim_spends (hl : flowCpuLive s.world cpu = true) (hd : 0 < d.lq0)
    (h : ¬ ReclaimIdle k cpu s) :
    (flowDispatchReclaim k cpu d s).world.reclaimCredit ≠ s.world.reclaimCredit := by
  unfold ReclaimIdle at h
  rw [not_or, not_or, not_or, not_or, ← rejectWalk_hit_none] at h
  obtain ⟨hleft, hv, hq, hc, hwalk⟩ := h
  obtain ⟨e, he⟩ := Option.ne_none_iff_exists'.mp hwalk
  have hr := flowRejectReclaimOne_eq (k := k) hl (by omega) hq hc
  rw [he] at hr
  have hok := Scan.ok_of_hit _ _ _ he
  obtain ⟨c, hcell⟩ := Option.isSome_iff_exists.mp hok
  have hne : c ≠ s.world.reclaimCredit := by
    unfold flowReclaimTest at hcell
    split at hcell
    · simp at hcell
    · exact flowReclaimCandidateOk_spends rfl hcell
  rw [flowDispatchReclaim_eq hd hleft (by omega) hq hr]
  simp only [Pass.walked, he, hcell, Option.getD_some]
  split
  · exact hne
  · exact hne

end Reclaim

section TwoSequences

/-- Two passes end in the same queues, the same credit and the same counters. -/
structure SameEnd (s s' : Pass) : Prop where
  dsq : s.world.dsq = s'.world.dsq
  reclaimCredit : s.world.reclaimCredit = s'.world.reclaimCredit
  cpuStats : s.world.cpuStats = s'.world.cpuStats

/-- The entries of the local queue a pass visits: up to the first that may move, or all. -/
def localVisits (w : World) (k : Kernel) (cpu : ℕ) : ℕ :=
  min (w.dsq (flowLocalDsq cpu)).length ((w.dsq (flowLocalDsq cpu)).findIdx
    (fun e => flowMoveCandidate k (flowLocalDsq cpu) cpu e.task) + 1)

/-- The local queue holds a task that may move within the visits of a pass. -/
def LocalMoves (w : World) (k : Kernel) (cpu : ℕ) : Prop :=
  (w.dsq (flowLocalDsq cpu)).findIdx
      (fun e => flowMoveCandidate k (flowLocalDsq cpu) cpu e.task)
    < min flowDispatchMaxVisit (w.dsq (flowLocalDsq cpu)).length

/-- What keeps the general sequence from going past the local move. -/
inductive ShortcutSafe (w : World) (k : Kernel) (cpu : ℕ) : Prop
  | dead (h : flowCpuLive w cpu = false)
  | noSlot (h : k.nrSlots = 0)
  | lastSlot (h : k.nrSlots = 1) (hm : LocalMoves w k cpu)
  | visits (h : flowDispatchMaxVisit ≤ localVisits w k cpu)
  | noReject (h : w.dsq flowOverflowDsq = [])
  | noCredit (h : w.reclaimCredit < flowRedEmaxNs)
  | refused (h : ∀ e ∈ (w.dsq flowOverflowDsq).take (flowDispatchMaxVisit - localVisits w k cpu),
      flowReclaimTest k w cpu false e.task = none)

theorem flowDispatchLocal_start (hl : flowCpuLive w cpu = true) (hslots : k.nrSlots ≠ 0)
    (hq : w.dsq (flowLocalDsq cpu) ≠ []) {s : Pass}
    (hs : s = flowDispatchLocal k cpu (flowDispatchDepths w cpu) (Pass.start w k.nrSlots)) :
    (s.left = 0 ↔ k.nrSlots = 1 ∧ LocalMoves w k cpu)
      ∧ s.visits = min flowDispatchMaxVisit (localVisits w k cpu)
      ∧ s.world.reclaimCredit = w.reclaimCredit ∧ Keeps w s.world
      ∧ s.world.dsq flowOverflowDsq = w.dsq flowOverflowDsq := by
  have hc := (flowCpuLive_iff.mp hl).2
  have hkinds := dsq_kinds hc (flowDispatchNode_lt w cpu)
  obtain ⟨new, hst, -⟩ := flowDispatchLocal_stage (k := k) (s := Pass.start w k.nrSlots) hc
    (flowDispatchDepths w cpu)
  rw [← hs] at hst
  have htier := flowDispatchTier_eq (k := k) (s := Pass.start w k.nrSlots)
    (flowLocalDsq cpu) hl hslots (by simp [Pass.start]) hq
  have hlocal : s = { (flowDispatchTier k (flowLocalDsq cpu) cpu
      (nrQueued w (flowLocalDsq cpu)) (Pass.start w k.nrSlots)).1 with
      localMoved := (flowDispatchTier k (flowLocalDsq cpu) cpu
        (nrQueued w (flowLocalDsq cpu)) (Pass.start w k.nrSlots)).2 } := hs
  have hw : (Pass.start w k.nrSlots).world = w := rfl
  rw [hw] at htier
  rw [htier] at hlocal
  have hhit : (tierWalk k cpu (flowLocalDsq cpu) 0 (w.dsq (flowLocalDsq cpu))).hit.isSome = true
      ↔ LocalMoves w k cpu := Scan.hit_isSome_iff ..
  have hlen : (tierWalk k cpu (flowLocalDsq cpu) 0 (w.dsq (flowLocalDsq cpu))).visited.length
      = min flowDispatchMaxVisit (localVisits w k cpu) := Scan.visited_length ..
  refine ⟨?_, ?_, ?_, hst.keeps, hst.others _ (by omega) (scxLocalOn_ne (by omega))⟩
  · rw [hlocal]
    show k.nrSlots - (if (tierWalk k cpu (flowLocalDsq cpu) 0 (w.dsq (flowLocalDsq cpu))).hit.isSome
      = true then 1 else 0) = 0 ↔ _
    by_cases hm : LocalMoves w k cpu
    · rw [if_pos (hhit.mpr hm)]
      simp only [hm, and_true]
      omega
    · rw [if_neg (fun h => hm (hhit.mp h))]
      simp only [hm, and_false, iff_false]
      omega
  · rw [hlocal]
    show 0 + (tierWalk k cpu (flowLocalDsq cpu) 0 (w.dsq (flowLocalDsq cpu))).visited.length = _
    rw [Nat.zero_add, hlen]
  · rw [hlocal]
    simp only [Pass.walked]
    split
    · rfl
    · rfl

theorem flowDispatchMoves_fast {d : Depths} {node : ℕ} {s : Pass}
    (hd : 0 < d.lq0 ∧ d.nq0 ≤ 0 ∧ d.mq0 ≤ 0) (hs : s.left ≠ 0 ∧ s.visits < flowDispatchMaxVisit) :
    flowDispatchMoves k cpu node d true s = flowDispatchLocal k cpu d s := by
  unfold flowDispatchMoves
  simp only
  rw [if_pos]
  simp only [Bool.true_and, Bool.and_eq_true, decide_eq_true_eq]
  exact ⟨hd, hs⟩

/-- With local work alone the general sequence is the local move and the reclaim. -/
theorem flowDispatchMoves_general {d : Depths} {node : ℕ} (hc : cpu < flowMaxCpus)
    (hd : 0 < d.lq0 ∧ d.nq0 ≤ 0 ∧ d.mq0 ≤ 0) :
    flowDispatchMoves k cpu node d false (Pass.start w k.nrSlots)
      = flowDispatchReclaim k cpu d (flowDispatchLocal k cpu d (Pass.start w k.nrSlots)) := by
  have htiers := tierMoves_eq_local (w := w) (k := k) node hc hd.2.1 hd.2.2
  unfold tierMoves at htiers
  unfold flowDispatchMoves
  simp only [Bool.false_and, Bool.false_eq_true, ↓reduceIte]
  unfold flowDispatchGeneral
  rw [htiers]
  unfold flowDispatchSteal
  simp only
  split
  · rw [if_neg]
    omega
  · rfl

theorem flowDispatchPass_accounted (hl : flowCpuLive w cpu = true) (hslots : k.nrSlots ≠ 0)
    (fast : Bool) : Accounted k (flowDispatchMoves k cpu (flowDispatchNode w cpu)
      (flowDispatchDepths w cpu) fast (Pass.start w k.nrSlots))
      (flowDispatchPass w k cpu fast).world := by
  unfold flowDispatchPass
  rw [if_neg (by omega)]
  simp only [Int.toNat_natCast, hl, Bool.not_true, Bool.false_eq_true, ↓reduceIte, if_neg hslots]
  exact flowPerfUpdateHint_accounted k _ _ _ _ _

theorem flowDispatchPass_same (h : flowCpuLive w cpu = false ∨ k.nrSlots = 0) :
    flowDispatchPass w k cpu true = flowDispatchPass w k cpu false := by
  rcases h with h | h
  · simp [flowDispatchPass, h]
  · simp [flowDispatchPass, h]

/-- After the local move the reclaim of the general sequence is idle exactly on the conditions of
`ShortcutSafe`. -/
theorem reclaimIdle_iff (hl : flowCpuLive w cpu = true) (hslots : k.nrSlots ≠ 0)
    (hq : w.dsq (flowLocalDsq cpu) ≠ []) {s : Pass}
    (hs : s = flowDispatchLocal k cpu (flowDispatchDepths w cpu) (Pass.start w k.nrSlots)) :
    ReclaimIdle k cpu s ↔ ShortcutSafe w k cpu := by
  obtain ⟨hleft, hvis, hcred, hkeep, hover⟩ := flowDispatchLocal_start hl hslots hq hs
  have htest : ∀ p, flowReclaimTest k s.world cpu false p = flowReclaimTest k w cpu false p := by
    intro p
    unfold flowReclaimTest
    rw [hkeep.taskCtx, hcred]
  have hrest : flowDispatchMaxVisit - min flowDispatchMaxVisit (localVisits w k cpu)
      = flowDispatchMaxVisit - localVisits w k cpu := by omega
  unfold ReclaimIdle
  simp only [hleft, hvis, hcred, hover, htest, hrest]
  constructor
  · rintro (⟨h, hmv⟩ | h | h | h | h)
    · exact .lastSlot h hmv
    · exact .visits (by omega)
    · exact .noReject h
    · exact .noCredit h
    · exact .refused h
  · intro h
    cases h with
    | dead h =>
      rw [hl] at h
      exact Bool.noConfusion h
    | noSlot h => exact absurd h hslots
    | lastSlot h hmv => exact Or.inl ⟨h, hmv⟩
    | visits h => exact Or.inr (Or.inl (by omega))
    | noReject h => exact Or.inr (Or.inr (Or.inl h))
    | noCredit h => exact Or.inr (Or.inr (Or.inr (Or.inl h)))
    | refused h => exact Or.inr (Or.inr (Or.inr (Or.inr h)))

/-- With local work alone the shortcut ends as the general sequence does, exactly where that finds
nothing to reclaim. -/
theorem flowDispatch_shortcut_iff (w : World) (k : Kernel) (cpu : ℕ)
    (hq : w.dsq (flowLocalDsq cpu) ≠ [])
    (hn : w.dsq (flowNodeDsq (flowDispatchNode w cpu)) = []) (hm : w.dsq flowMachineDsq = []) :
    SameEnd (flowDispatchPass w k cpu true) (flowDispatchPass w k cpu false)
      ↔ ShortcutSafe w k cpu := by
  rcases hl : flowCpuLive w cpu with _ | _
  · rw [flowDispatchPass_same (Or.inl hl)]
    exact iff_of_true ⟨rfl, rfl, rfl⟩ (.dead hl)
  by_cases hslots : k.nrSlots = 0
  · rw [flowDispatchPass_same (Or.inr hslots)]
    exact iff_of_true ⟨rfl, rfl, rfl⟩ (.noSlot hslots)
  have hd : 0 < (flowDispatchDepths w cpu).lq0 ∧ (flowDispatchDepths w cpu).nq0 ≤ 0
      ∧ (flowDispatchDepths w cpu).mq0 ≤ 0 :=
    ⟨nrQueued_pos.mpr hq, by simp [flowDispatchDepths, nrQueued, hn],
      by simp [flowDispatchDepths, nrQueued, hm]⟩
  have hfast := flowDispatchPass_accounted hl hslots true
  have hgen := flowDispatchPass_accounted hl hslots false
  rw [flowDispatchMoves_fast hd ⟨hslots, by simp [Pass.start]⟩] at hfast
  rw [flowDispatchMoves_general (flowCpuLive_iff.mp hl).2 hd] at hgen
  generalize hs : flowDispatchLocal k cpu (flowDispatchDepths w cpu) (Pass.start w k.nrSlots) = s
    at hfast hgen
  have hkeep := (flowDispatchLocal_start hl hslots hq hs.symm).2.2.2.1
  have hlive : flowCpuLive s.world cpu = true := by
    rw [flowCpuLive_iff, hkeep.nrCpuIds]
    exact flowCpuLive_iff.mp hl
  rw [← reclaimIdle_iff hl hslots hq hs.symm]
  constructor
  · intro hsame
    by_contra hbusy
    refine flowDispatchReclaim_spends hlive hd.1 hbusy ?_
    rw [← hgen.reclaimCredit, ← hsame.reclaimCredit, hfast.reclaimCredit]
  · intro h
    obtain ⟨hw, ht⟩ := flowDispatchReclaim_idle hlive hd.1 h
    have hacc : flowDispatchAccount k (flowDispatchReclaim k cpu (flowDispatchDepths w cpu) s)
        = flowDispatchAccount k s := by
      simp only [Pass.tally, Prod.mk.injEq] at ht
      unfold flowDispatchAccount
      rw [hw, ht.1, ht.2.1, ht.2.2.1, ht.2.2.2]
    exact ⟨by rw [hfast.dsq, hgen.dsq, hw], by rw [hfast.reclaimCredit, hgen.reclaimCredit, hw],
      by rw [hfast.cpuStats, hgen.cpuStats, hacc]⟩

/-- A task that has long waited in the reject queue, with a deadline and a ledger ahead of the
clock. -/
def longReject : FlowTaskCtx :=
  { FlowTaskCtx.fresh with
    vruntime := 400000000, deadline := 350000000, waitAt := 100000001
    avgNs := 100000000, devNs := 100000000 }

/-- One task on the local queue of CPU 0 and one aged reject, with credit for one reclaim. -/
def World.agedReject : World :=
  { ((World.boot 2 1 fun _ => 0).setDsq (flowLocalDsq 0) [⟨1, 5⟩]).setDsq flowOverflowDsq
      [⟨0, 16256⟩] with
    taskCtx := Function.update (fun _ => none) 0 (some longReject)
    reclaimCredit := 256000 }

/-- The general sequence reclaims the reject, which the shortcut leaves. -/
theorem flowDispatch_shortcut_skips_reclaim :
    World.agedReject.dsq (flowLocalDsq 0) ≠ []
      ∧ World.agedReject.dsq (flowNodeDsq (flowDispatchNode World.agedReject 0)) = []
      ∧ World.agedReject.dsq flowMachineDsq = []
      ∧ ¬ SameEnd (flowDispatchPass World.agedReject (Kernel.plain 200000000) (0 : ℕ) true)
        (flowDispatchPass World.agedReject (Kernel.plain 200000000) (0 : ℕ) false) :=
  ⟨by decide, by decide, by decide, fun h => absurd h.reclaimCredit (by decide)⟩

theorem flowDispatch_shortcut_iff_aged : World.agedReject.dsq (flowLocalDsq 0) ≠ []
    ∧ World.agedReject.dsq (flowNodeDsq (flowDispatchNode World.agedReject 0)) = []
    ∧ World.agedReject.dsq flowMachineDsq = []
    ∧ (SameEnd (flowDispatchPass World.agedReject (Kernel.plain 1000) (0 : ℕ) true)
        (flowDispatchPass World.agedReject (Kernel.plain 1000) (0 : ℕ) false)
      ↔ ShortcutSafe World.agedReject (Kernel.plain 1000) 0) :=
  ⟨by decide, by decide, by decide,
    flowDispatch_shortcut_iff World.agedReject (Kernel.plain 1000) 0 (by decide) (by decide)
      (by decide)⟩

end TwoSequences

end ScxFlow
