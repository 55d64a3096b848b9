import ScxFlow.Proofs.Reserve

/-!
# The tier moves as three walks

A pass walks its local queue, its node queue and the machine queue in this order with one budget of
visits and of slots between them.  What the walks do is a function of the queues it found
[tierWalks], and the pass carries it out [tierMoves_walks].
-/

namespace ScxFlow

variable {w : World} {k : Kernel} {cpu : ℕ}

/-- The walk of one tier, which a pass without slots skips. -/
def tierScan (k : Kernel) (cpu dsq visits slots : ℕ) (l : List Entry) : Scan Entry :=
  if slots = 0 then ⟨[], none, l⟩ else tierWalk k cpu dsq visits l

/-- The three walks, and the visits spent and the slots left behind them. -/
structure TierWalks where
  own : Scan Entry
  node : Scan Entry
  machine : Scan Entry
  visits : ℕ
  slots : ℕ

def tierWalks (w : World) (k : Kernel) (cpu : ℕ) : TierWalks :=
  let nodeDsq := flowNodeDsq (flowDispatchNode w cpu)
  let own := tierScan k cpu (flowLocalDsq cpu) 0 k.nrSlots (w.dsq (flowLocalDsq cpu))
  let v₁ := own.visited.length
  let n₁ := k.nrSlots - own.hit.toList.length
  let node := tierScan k cpu nodeDsq v₁ n₁ (w.dsq nodeDsq)
  let v₂ := v₁ + node.visited.length
  let n₂ := n₁ - node.hit.toList.length
  let machine := tierScan k cpu flowMachineDsq v₂ n₂ (w.dsq flowMachineDsq)
  ⟨own, node, machine, v₂ + machine.visited.length, n₂ - machine.hit.toList.length⟩

/-- The queues a pass drains, in its order. -/
def tierQueues (w : World) (cpu : ℕ) : List ℕ :=
  [flowLocalDsq cpu, flowNodeDsq (flowDispatchNode w cpu), flowMachineDsq]

section Tier

variable {s : Pass} {dsq : ℕ}

theorem tierScan_left (k : Kernel) (cpu dsq visits slots : ℕ) (l : List Entry) :
    (tierScan k cpu dsq visits slots l).seen ++ (tierScan k cpu dsq visits slots l).hit.toList
      ++ (tierScan k cpu dsq visits slots l).rest = l := by
  unfold tierScan
  split
  · rfl
  · exact Scan.walk_parts ..

/-- An entry a walk took is one the CPU may run, behind entries it may not. -/
theorem tierScan_hit {visits slots : ℕ} {l : List Entry} {e : Entry}
    (h : (tierScan k cpu dsq visits slots l).hit = some e) :
    flowMoveCandidate k dsq cpu e.task = true
      ∧ (∀ u ∈ (tierScan k cpu dsq visits slots l).seen,
        flowMoveCandidate k dsq cpu u.task = false)
      ∧ slots ≠ 0 ∧ visits < flowDispatchMaxVisit := by
  unfold tierScan at h ⊢
  split at h
  · cases h
  · rename_i hslots
    rw [if_neg hslots]
    refine ⟨Scan.ok_of_hit (fun e : Entry => flowMoveCandidate k dsq cpu e.task) _ _ h,
      Scan.not_ok_of_mem_seen (fun e : Entry => flowMoveCandidate k dsq cpu e.task) _ _, hslots, ?_⟩
    by_contra hv
    rw [tierWalk, Nat.sub_eq_zero_of_le (not_lt.mp hv), Scan.walk_zero] at h
    cases h

/-- A walk that took nothing, with slots and visits left, has refused its whole queue. -/
theorem tierScan_none {visits slots : ℕ} {l : List Entry}
    (h : (tierScan k cpu dsq visits slots l).hit = none) (hslots : slots ≠ 0)
    (hv : visits + (tierScan k cpu dsq visits slots l).visited.length < flowDispatchMaxVisit) :
    ∀ u ∈ l, flowMoveCandidate k dsq cpu u.task = false := by
  unfold tierScan at h hv
  rw [if_neg hslots] at h hv
  have hvis := Scan.visited_of_hit_none _ _ _ h
  rw [tierWalk] at hv
  rw [hvis, List.length_take] at hv
  rw [tierWalk, Scan.hit_eq_none_iff, List.take_of_length_le (by omega)] at h
  exact h

theorem flowDispatchTier_scan (hl : flowCpuLive s.world cpu = true) :
    flowDispatchTier k dsq cpu (nrQueued s.world dsq) s
      = ({ s.walked dsq cpu (tierScan k cpu dsq s.visits s.left (s.world.dsq dsq)) true with
          left := s.left - (tierScan k cpu dsq s.visits s.left (s.world.dsq dsq)).hit.toList.length },
        (tierScan k cpu dsq s.visits s.left (s.world.dsq dsq)).hit.toList.length) := by
  by_cases hskip : s.left = 0 ∨ flowDispatchMaxVisit ≤ s.visits ∨ s.world.dsq dsq = []
  · have hidle : tierScan k cpu dsq s.visits s.left (s.world.dsq dsq)
        = ⟨[], none, s.world.dsq dsq⟩ := by
      unfold tierScan tierWalk
      split
      · rfl
      · rcases hskip with h | h | h
        · contradiction
        · rw [Nat.sub_eq_zero_of_le h, Scan.walk_zero]
        · rw [h, Scan.walk_nil]
    rw [flowDispatchTier_skip hskip, hidle]
    simp [Pass.walked, Scan.visited]
  · rw [not_or, not_or] at hskip
    obtain ⟨hleft, hv, hq⟩ := hskip
    have hscan : tierScan k cpu dsq s.visits s.left (s.world.dsq dsq)
        = tierWalk k cpu dsq s.visits (s.world.dsq dsq) := if_neg hleft
    have hlen (r : Scan Entry) : (if r.hit.isSome then 1 else 0) = r.hit.toList.length := by
      rcases r.hit with _ | e <;> rfl
    rw [flowDispatchTier_eq dsq hl hleft (by omega) hq, hscan, hlen]

/-- The visits of a walk that moves what it takes. -/
def scanVisits (dsq : ℕ) (r : Scan Entry) : List Visit :=
  refused dsq r.seen ++ r.hit.toList.map (⟨dsq, ·, true⟩)

/-- What one tier does with the walk `r` of its queue. -/
structure Tiered (cpu dsq : ℕ) (s s' : Pass) (r : Scan Entry) : Prop where
  visits : s'.visits = s.visits + r.visited.length
  left : s'.left = s.left - r.hit.toList.length
  log : s'.log = s.log ++ scanVisits dsq r
  queue : s'.world.dsq dsq = r.left
  others : ∀ d, d ≠ dsq → d ≠ scxLocalOn cpu → s'.world.dsq d = s.world.dsq d
  keeps : Keeps s.world s'.world
  credit : s'.world.reclaimCredit = s.world.reclaimCredit

theorem flowDispatchTier_tiered (k : Kernel) (dsq cpu : ℕ) (s : Pass)
    (hl : flowCpuLive s.world cpu = true) (hd : dsq ≠ scxLocalOn cpu) :
    Tiered cpu dsq s (flowDispatchTier k dsq cpu (nrQueued s.world dsq) s).1
      (tierScan k cpu dsq s.visits s.left (s.world.dsq dsq)) := by
  rw [flowDispatchTier_scan hl]
  have hparts := tierScan_left k cpu dsq s.visits s.left (s.world.dsq dsq)
  generalize tierScan k cpu dsq s.visits s.left (s.world.dsq dsq) = r at hparts
  rcases hr : r.hit with _ | e
  · rw [walked_kept (by simp [hr])]
    rw [hr] at hparts
    refine ⟨rfl, by rw [hr], ?_, ?_, fun _ _ _ => rfl, .refl _, rfl⟩
    · simp [scanVisits, Scan.visited, hr]
    · simpa [Scan.left] using hparts.symm
  · rw [walked_moved hr]
    obtain ⟨hq, -, ho⟩ := dsqMoved_dsq s.world r.left e hd
    exact ⟨rfl, by rw [hr], by simp [scanVisits, hr], hq, ho, dsqMoved_keeps _ _ _ _ _, rfl⟩

end Tier

section ThreeTiers

/-- The visits of the tier moves, in order. -/
def tierLog (w : World) (k : Kernel) (cpu : ℕ) : List Visit :=
  scanVisits (flowLocalDsq cpu) (tierWalks w k cpu).own
    ++ scanVisits (flowNodeDsq (flowDispatchNode w cpu)) (tierWalks w k cpu).node
    ++ scanVisits flowMachineDsq (tierWalks w k cpu).machine

/-- The pass behind the tier moves. -/
structure TierMoved (w : World) (k : Kernel) (cpu : ℕ) (s : Pass) : Prop where
  log : s.log = tierLog w k cpu
  visits : s.visits = (tierWalks w k cpu).visits
  left : s.left = (tierWalks w k cpu).slots
  own : s.world.dsq (flowLocalDsq cpu) = (tierWalks w k cpu).own.left
  node : s.world.dsq (flowNodeDsq (flowDispatchNode w cpu)) = (tierWalks w k cpu).node.left
  machine : s.world.dsq flowMachineDsq = (tierWalks w k cpu).machine.left
  others : ∀ d, d ∉ tierQueues w cpu → d ≠ scxLocalOn cpu → s.world.dsq d = w.dsq d
  keeps : Keeps w s.world
  credit : s.world.reclaimCredit = w.reclaimCredit

/-- Three tiers, each behind the one before. -/
theorem TierMoved.of_tiered {s1 s2 s3 : Pass} (hc : cpu < flowMaxCpus)
    (h1 : Tiered cpu (flowLocalDsq cpu) (Pass.start w k.nrSlots) s1 (tierWalks w k cpu).own)
    (h2 : Tiered cpu (flowNodeDsq (flowDispatchNode w cpu)) s1 s2 (tierWalks w k cpu).node)
    (h3 : Tiered cpu flowMachineDsq s2 s3 (tierWalks w k cpu).machine) :
    TierMoved w k cpu s3 := by
  obtain ⟨hln, hnm, hmo, hot⟩ := dsq_kinds hc (flowDispatchNode_lt w cpu)
  constructor
  case log =>
    rw [h3.log, h2.log, h1.log]
    simp [Pass.start, tierLog]
  case visits =>
    rw [h3.visits, h2.visits, h1.visits]
    simp [Pass.start, tierWalks]
  case left =>
    rw [h3.left, h2.left, h1.left]
    rfl
  case own =>
    rw [h3.others _ (by omega) (scxLocalOn_ne (by omega)),
      h2.others _ (by omega) (scxLocalOn_ne (by omega))]
    exact h1.queue
  case node =>
    rw [h3.others _ (by omega) (scxLocalOn_ne (by omega))]
    exact h2.queue
  case machine => exact h3.queue
  case others =>
    intro d hd ht
    simp only [tierQueues, List.mem_cons, List.not_mem_nil, or_false, not_or] at hd
    rw [h3.others d hd.2.2 ht, h2.others d hd.2.1 ht]
    exact h1.others d hd.1 ht
  case keeps => exact h1.keeps.trans (h2.keeps.trans h3.keeps)
  case credit =>
    rw [h3.credit, h2.credit, h1.credit]
    rfl

theorem tierMoves_walks (hl : flowCpuLive w cpu = true) :
    TierMoved w k cpu (tierMoves k cpu (flowDispatchNode w cpu) (flowDispatchDepths w cpu)
      (Pass.start w k.nrSlots)) := by
  have hc := (flowCpuLive_iff.mp hl).2
  obtain ⟨hln, hnm, hmo, hot⟩ := dsq_kinds hc (flowDispatchNode_lt w cpu)
  have hlive {w' : World} (h : Keeps w w') : flowCpuLive w' cpu = true := by
    rw [flowCpuLive_iff, h.nrCpuIds]
    exact flowCpuLive_iff.mp hl
  unfold tierMoves
  have h1 := flowDispatchTier_tiered k (flowLocalDsq cpu) cpu (Pass.start w k.nrSlots) hl
    (scxLocalOn_ne (by omega))
  generalize hs1 : flowDispatchLocal k cpu (flowDispatchDepths w cpu) (Pass.start w k.nrSlots) = s1
  replace h1 :
      Tiered cpu (flowLocalDsq cpu) (Pass.start w k.nrSlots) s1 (tierWalks w k cpu).own := by
    rw [← hs1]
    exact ⟨h1.visits, h1.left, h1.log, h1.queue, h1.others, h1.keeps, h1.credit⟩
  have hq1 : s1.world.dsq (flowNodeDsq (flowDispatchNode w cpu))
      = w.dsq (flowNodeDsq (flowDispatchNode w cpu)) :=
    h1.others _ (by omega) (scxLocalOn_ne (by omega))
  have h2 := flowDispatchTier_tiered k (flowNodeDsq (flowDispatchNode w cpu)) cpu s1
    (hlive h1.keeps) (scxLocalOn_ne (by omega))
  generalize hs2 : flowDispatchNodeTier k cpu (flowDispatchNode w cpu) (flowDispatchDepths w cpu) s1
    = s2
  replace h2 :
      Tiered cpu (flowNodeDsq (flowDispatchNode w cpu)) s1 s2 (tierWalks w k cpu).node := by
    rw [nrQueued, hq1, h1.visits, h1.left] at h2
    rw [← hs2]
    simp only [Pass.start, Nat.zero_add] at h2
    exact ⟨h2.visits, h2.left, h2.log, h2.queue, h2.others, h2.keeps, h2.credit⟩
  have hq2 : s2.world.dsq flowMachineDsq = w.dsq flowMachineDsq := by
    rw [h2.others _ (by omega) (scxLocalOn_ne (by omega))]
    exact h1.others _ (by omega) (scxLocalOn_ne (by omega))
  have h3 := flowDispatchTier_tiered k flowMachineDsq cpu s2
    (hlive (h1.keeps.trans h2.keeps)) (scxLocalOn_ne (by omega))
  generalize hs3 : flowDispatchMachine k cpu (flowDispatchDepths w cpu) s2 = s3
  replace h3 : Tiered cpu flowMachineDsq s2 s3 (tierWalks w k cpu).machine := by
    rw [nrQueued, hq2, h2.visits, h2.left, h1.visits, h1.left] at h3
    rw [← hs3]
    simp only [Pass.start, Nat.zero_add] at h3
    exact ⟨h3.visits, h3.left, h3.log, h3.queue, h3.others, h3.keeps, h3.credit⟩
  exact .of_tiered hc h1 h2 h3

end ThreeTiers

section WholePass

/-- What a pass has done to its tiers at its end. -/
structure PassTiers (w : World) (k : Kernel) (cpu : ℕ) (s : Pass) : Prop where
  log : ∃ rest, s.log = tierLog w k cpu ++ rest ∧ ∀ v ∈ rest, v.dsq ∉ tierQueues w cpu
  own : s.world.dsq (flowLocalDsq cpu) = (tierWalks w k cpu).own.left
  node : s.world.dsq (flowNodeDsq (flowDispatchNode w cpu)) = (tierWalks w k cpu).node.left
  machine : s.world.dsq flowMachineDsq = (tierWalks w k cpu).machine.left

theorem TierMoved.tiers {s : Pass} (h : TierMoved w k cpu s) : PassTiers w k cpu s :=
  ⟨⟨[], by simp [h.log], by simp⟩, h.own, h.node, h.machine⟩

/-- A later stage on another queue leaves the tiers as they are. -/
theorem PassTiers.stage {s s' : Pass} {dsq : ℕ} {new : List Visit} (h : PassTiers w k cpu s)
    (hc : cpu < flowMaxCpus) (hs : Stage k cpu dsq s s' new) (hd : dsq ∉ tierQueues w cpu) :
    PassTiers w k cpu s' := by
  obtain ⟨hln, hnm, hmo, hot⟩ := dsq_kinds hc (flowDispatchNode_lt w cpu)
  have hd' := hd
  simp only [tierQueues, List.mem_cons, List.not_mem_nil, or_false, not_or] at hd'
  obtain ⟨rest, hlog, hrest⟩ := h.log
  constructor
  case log =>
    refine ⟨rest ++ new, by rw [hs.log, hlog, List.append_assoc], fun v hv => ?_⟩
    rcases List.mem_append.mp hv with hv | hv
    · exact hrest v hv
    · rw [hs.queue.dsq_eq v hv]
      exact hd
  case own => rw [hs.others _ (Ne.symm hd'.1) (scxLocalOn_ne (by omega)), h.own]
  case node => rw [hs.others _ (Ne.symm hd'.2.1) (scxLocalOn_ne (by omega)), h.node]
  case machine => rw [hs.others _ (Ne.symm hd'.2.2) (scxLocalOn_ne (by omega)), h.machine]

theorem flowDispatchMoves_tiers (hl : flowCpuLive w cpu = true) (fast : Bool) :
    PassTiers w k cpu (flowDispatchMoves k cpu (flowDispatchNode w cpu) (flowDispatchDepths w cpu)
      fast (Pass.start w k.nrSlots)) := by
  have hc := (flowCpuLive_iff.mp hl).2
  have hkinds := dsq_kinds hc (flowDispatchNode_lt w cpu)
  have ht := (tierMoves_walks (k := k) hl).tiers
  rcases flowDispatchMoves_cases (k := k) (w := w) (flowDispatchNode w cpu)
    (flowDispatchDepths w cpu) hc fast with h | h
  · rw [h]
    exact ht
  · rw [h]
    generalize tierMoves k cpu (flowDispatchNode w cpu) (flowDispatchDepths w cpu)
      (Pass.start w k.nrSlots) = s at ht
    obtain ⟨n4, hs4, -⟩ := flowDispatchReclaim_stage (k := k) cpu (s := s)
      (flowDispatchDepths w cpu)
    obtain ⟨peer, n5, hne, hlt, hs5, -⟩ := flowDispatchSteal_stage (k := k) cpu
      (s := flowDispatchReclaim k cpu (flowDispatchDepths w cpu) s) (flowDispatchDepths w cpu)
    have hpk := dsq_kinds hlt (flowDispatchNode_lt w cpu)
    have hpeer : flowLocalDsq peer ≠ flowLocalDsq cpu := fun h => hne (flowLocalDsq_inj h)
    refine (ht.stage hc hs4 ?_).stage hc hs5 ?_
    · simp only [tierQueues, List.mem_cons, List.not_mem_nil, or_false]
      omega
    · simp only [tierQueues, List.mem_cons, List.not_mem_nil, or_false]
      omega

theorem flowDispatchPass_tiers (hl : flowCpuLive w cpu = true) (fast : Bool) :
    PassTiers w k cpu (flowDispatchPass w k cpu fast) := by
  by_cases hslots : k.nrSlots = 0
  · have hscan (dsq visits : ℕ) (l : List Entry) : tierScan k cpu dsq visits 0 l = ⟨[], none, l⟩ :=
      if_pos rfl
    have hdsq : (flowDispatchPass w k cpu fast).log = []
        ∧ (flowDispatchPass w k cpu fast).world.dsq = w.dsq := by
      unfold flowDispatchPass
      rw [if_neg (by omega)]
      simp only [Int.toNat_natCast, hl, Bool.not_true, Bool.false_eq_true, ↓reduceIte,
        if_pos hslots]
      rw [flowPerfUpdateHint_eq]
      exact ⟨rfl, rfl⟩
    have hwalks : tierWalks w k cpu = ⟨⟨[], none, w.dsq (flowLocalDsq cpu)⟩,
        ⟨[], none, w.dsq (flowNodeDsq (flowDispatchNode w cpu))⟩,
        ⟨[], none, w.dsq flowMachineDsq⟩, 0, 0⟩ := by
      simp [tierWalks, hslots, hscan, Scan.visited]
    constructor
    · exact ⟨[], by rw [hdsq.1, tierLog, hwalks]; rfl, by simp⟩
    all_goals rw [hdsq.2, hwalks]; rfl
  · have ht := flowDispatchMoves_tiers (k := k) hl fast
    have ha := (flowDispatchPass_accounted (k := k) hl hslots fast).dsq
    exact ⟨by rw [flowDispatchPass_log hl hslots]; exact ht.log, by rw [ha]; exact ht.own,
      by rw [ha]; exact ht.node, by rw [ha]; exact ht.machine⟩

end WholePass

section Behind

/-- The depths a pass read at its start were all empty. -/
def Depths.empty (d : Depths) : Bool := decide (d.lq0 ≤ 0 ∧ d.nq0 ≤ 0 ∧ d.mq0 ≤ 0)

/-- The reclaim of a pass moves the reject its walk stops at, if the kernel takes it. -/
theorem flowDispatchReclaim_moves (k : Kernel) (cpu : ℕ) (d : Depths) (s : Pass) :
    ∃ new, (flowDispatchReclaim k cpu d s).log = s.log ++ new ∧ ∀ e,
      (⟨flowOverflowDsq, e, true⟩ : Visit) ∈ new ↔ s.left ≠ 0
        ∧ ReclaimWalks cpu (nrQueued s.world flowOverflowDsq) d.empty s
        ∧ (reclaimWalk k cpu d.empty s).hit = some e ∧ k.dsqMove flowOverflowDsq e.task = true := by
  by_cases hopen : s.left ≠ 0 ∧ ReclaimWalks cpu (nrQueued s.world flowOverflowDsq) d.empty s
  swap
  · refine ⟨[], ?_, fun e => iff_of_false (by simp) fun h => hopen ⟨h.1, h.2.1⟩⟩
    unfold flowDispatchReclaim
    split
    · rename_i hspent
      simp only
      split
      · have hw : ¬ ReclaimWalks cpu (nrQueued s.world flowOverflowDsq) d.empty s :=
          fun hw => hopen ⟨hspent.1, hw⟩
        show (flowRejectReclaimOne k cpu (nrQueued s.world flowOverflowDsq) d.empty s).1.log = _
        rw [flowRejectReclaimOne_skips hw, List.append_nil]
      · rw [List.append_nil]
    · rw [List.append_nil]
  · obtain ⟨hleft, hw⟩ := hopen
    have hlog : (flowDispatchReclaim k cpu d s).log
        = (flowRejectReclaimOne k cpu (nrQueued s.world flowOverflowDsq) d.empty s).1.log := by
      unfold flowDispatchReclaim
      rw [if_pos ⟨hleft, hw.visits⟩]
      simp only
      rw [if_pos hw.queued]
      rfl
    rw [hlog, flowRejectReclaimOne_walks hw]
    rcases hhit : (reclaimWalk k cpu d.empty s).hit with _ | e
    · refine ⟨refused flowOverflowDsq (reclaimWalk k cpu d.empty s).visited, ?_, fun e => ?_⟩
      · rw [walked_kept (by simp [hhit])]
      · refine iff_of_false (fun h => ?_) (by simp)
        obtain ⟨u, -, hu⟩ := mem_refused.mp h
        cases hu
    · obtain ⟨t, c, -, -, hok⟩ := reclaimWalk_hit hhit
      have hmask : flowMaskOk cpu (k.task e.task) = true := by
        have hfits := (flowReclaimCandidateOk_eq_some.mp hok).1
        unfold FlowReclaimTail.fits at hfits
        exact (Bool.and_eq_true_iff.mp hfits).2
      simp only [flowMoveCandidate_of_mask hmask]
      refine ⟨refused flowOverflowDsq (reclaimWalk k cpu d.empty s).seen
        ++ [⟨flowOverflowDsq, e, k.dsqMove flowOverflowDsq e.task⟩], ?_, fun e' => ?_⟩
      · simp [Pass.walked, refused, hhit, reclaimPaid]
      · rw [List.mem_append, mem_refused, List.mem_singleton]
        constructor
        · rintro (⟨u, -, hu⟩ | hu)
          · cases hu
          · simp only [Visit.mk.injEq, true_and] at hu
            obtain ⟨rfl, hmv⟩ := hu
            exact ⟨hleft, hw, rfl, hmv.symm⟩
        · rintro ⟨-, -, he, hmv⟩
          obtain rfl : e = e' := Option.some.inj he
          exact Or.inr (by rw [hmv])

end Behind

end ScxFlow
