import ScxFlow.Proofs.TierWalks

/-!
# A reclaimed reject against the tiers

The reclaim tests the rebuilt key of a reject against the clock alone.  Under load a pass takes one
task off each tier and may then append an aged reject, with the rest of the tiers still queued.  No
earlier key waits behind the reject exactly when the first reject that passes the test has a rebuilt
key not after any that the queues hold past their first movable entries [flowDispatch_rejoin_iff].
-/

namespace ScxFlow

variable {w : World} {k : Kernel} {cpu : ℕ}

section Found
variable (w : World) (k : Kernel) (cpu : ℕ)

/-- An entry of a queue that a walk for the CPU moves: it fits the mask and the kernel takes it. -/
def movable (dsq : ℕ) (e : Entry) : Bool := flowMoveCandidate k dsq cpu e.task

/-- The visits to the first movable entry of a queue, or to its end. -/
def queueVisits (dsq : ℕ) : ℕ :=
  min (w.dsq dsq).length ((w.dsq dsq).findIdx (movable k cpu dsq) + 1)

/-- The visits to the first movable entries of the three queues. -/
def tierVisits : ℕ := ((tierQueues w cpu).map (queueVisits w k cpu)).sum

/-- How many of the three queues hold a movable entry. -/
def tierMovers : ℕ :=
  (tierQueues w cpu).countP fun dsq => (w.dsq dsq).any (movable k cpu dsq)

/-- The first reject that a pass on these queues can reclaim and does: the local shortcut is shut,
the first movable entries of the tiers leave it a slot and a visit, the credit covers a walk, and
among the rejects within the visits left it is the first to pass the test, and the kernel takes
it. -/
structure RejoinsNext (e : Entry) : Prop where
  general : w.dsq (flowLocalDsq cpu) = [] ∨ w.dsq (flowNodeDsq (flowDispatchNode w cpu)) ≠ []
    ∨ w.dsq flowMachineDsq ≠ []
  slots : tierMovers w k cpu < k.nrSlots
  visits : tierVisits w k cpu < flowDispatchMaxVisit
  paid : flowReclaimEarlySkip w.reclaimCredit (flowDispatchDepths w cpu).empty = false
  first : ((w.dsq flowOverflowDsq).take (flowDispatchMaxVisit - tierVisits w k cpu)).find?
    (fun e => (flowReclaimTest k w cpu (flowDispatchDepths w cpu).empty e.task).isSome) = some e
  taken : k.dsqMove flowOverflowDsq e.task = true

/-- The rebuilt key of the first reject that can be reclaimed is not after the key of any runnable
entry of the tiers but their first movable ones. -/
def RejoinsInOrder : Prop :=
  ∀ e, RejoinsNext w k cpu e → ∀ t, w.taskCtx e.task = some t →
    ∀ d ∈ tierQueues w cpu, ∀ u ∈ (w.dsq d).eraseP (movable k cpu d),
      (k.task u.task).cpusPtr cpu = true →
      flowTimeBefore u.key (flowReclaimKey t t.deadline) = false

end Found

/-- No task the CPU may run still waits in a tier with a key before that of a reclaimed reject. -/
def NoneBehindRejoin (w : World) (k : Kernel) (cpu : ℕ) (s : Pass) : Prop :=
  ∀ v ∈ movesOf s.log, v.dsq = flowOverflowDsq → ∀ t, w.taskCtx v.entry.task = some t →
    ∀ d ∈ tierQueues w cpu, ∀ u ∈ s.world.dsq d, (k.task u.task).cpusPtr cpu = true →
    flowTimeBefore u.key (flowReclaimKey t t.deadline) = false

section Walks
variable (w : World) (k : Kernel) (cpu : ℕ)

theorem tierVisits_eq : tierVisits w k cpu = queueVisits w k cpu (flowLocalDsq cpu)
    + queueVisits w k cpu (flowNodeDsq (flowDispatchNode w cpu))
    + queueVisits w k cpu flowMachineDsq := by
  simp only [tierVisits, tierQueues, List.map_cons, List.map_nil, List.sum_cons, List.sum_nil]
  omega

/-- One for a queue that holds a movable entry. -/
def queueMovers (dsq : ℕ) : ℕ := if (w.dsq dsq).any (movable k cpu dsq) then 1 else 0

theorem tierMovers_eq : tierMovers w k cpu = queueMovers w k cpu (flowLocalDsq cpu)
    + queueMovers w k cpu (flowNodeDsq (flowDispatchNode w cpu))
    + queueMovers w k cpu flowMachineDsq := by
  simp only [tierMovers, tierQueues, List.countP_cons, List.countP_nil, queueMovers]
  omega

theorem tierScan_visits (dsq visits : ℕ) {slots : ℕ} (hslots : slots ≠ 0) :
    (tierScan k cpu dsq visits slots (w.dsq dsq)).visited.length
      = min (flowDispatchMaxVisit - visits) (queueVisits w k cpu dsq) := by
  unfold tierScan
  rw [if_neg hslots]
  exact Scan.visited_length _ _ _

/-- A tier walk with a slot whose visits reach the first movable entry takes it and leaves the
rest. -/
theorem tierScan_reaches {dsq visits slots : ℕ} (hslots : slots ≠ 0)
    (hv : visits + queueVisits w k cpu dsq ≤ flowDispatchMaxVisit) :
    (tierScan k cpu dsq visits slots (w.dsq dsq)).visited.length = queueVisits w k cpu dsq
      ∧ (tierScan k cpu dsq visits slots (w.dsq dsq)).hit.toList.length = queueMovers w k cpu dsq
      ∧ (tierScan k cpu dsq visits slots (w.dsq dsq)).left
        = (w.dsq dsq).eraseP (movable k cpu dsq) := by
  refine ⟨by rw [tierScan_visits w k cpu dsq visits hslots]; omega, ?_⟩
  unfold tierScan queueMovers
  rw [if_neg hslots]
  obtain ⟨hhit, hleft⟩ := Scan.hit_left_of_reaches (movable k cpu dsq) _ (w.dsq dsq)
    (Nat.le_sub_of_add_le' hv)
  refine ⟨?_, hleft⟩
  show (Scan.walk (movable k cpu dsq) _ _).hit.toList.length = _
  rw [hhit, ← List.isSome_find?]
  rcases (w.dsq dsq).find? (movable k cpu dsq) with _ | e <;> rfl

/-- The walks of a pass that reach the first movable entry of every tier. -/
structure TiersReached : Prop where
  visits : (tierWalks w k cpu).visits = tierVisits w k cpu
  slots : (tierWalks w k cpu).slots = k.nrSlots - tierMovers w k cpu
  own : (tierWalks w k cpu).own.left
    = (w.dsq (flowLocalDsq cpu)).eraseP (movable k cpu (flowLocalDsq cpu))
  node : (tierWalks w k cpu).node.left
    = (w.dsq (flowNodeDsq (flowDispatchNode w cpu))).eraseP
      (movable k cpu (flowNodeDsq (flowDispatchNode w cpu)))
  machine : (tierWalks w k cpu).machine.left
    = (w.dsq flowMachineDsq).eraseP (movable k cpu flowMachineDsq)

variable {w k cpu}

theorem tiersReached (hslots : tierMovers w k cpu < k.nrSlots)
    (hv : tierVisits w k cpu < flowDispatchMaxVisit) : TiersReached w k cpu := by
  rw [tierMovers_eq] at hslots
  rw [tierVisits_eq] at hv
  obtain ⟨hv₁, hn₁, hl₁⟩ := tierScan_reaches w k cpu
    (show k.nrSlots ≠ 0 by omega)
    (show 0 + queueVisits w k cpu (flowLocalDsq cpu) ≤ flowDispatchMaxVisit by omega)
  obtain ⟨hv₂, hn₂, hl₂⟩ := tierScan_reaches w k cpu
    (show k.nrSlots - queueMovers w k cpu (flowLocalDsq cpu) ≠ 0 by omega)
    (show queueVisits w k cpu (flowLocalDsq cpu)
      + queueVisits w k cpu (flowNodeDsq (flowDispatchNode w cpu)) ≤ flowDispatchMaxVisit by omega)
  obtain ⟨hv₃, hn₃, hl₃⟩ := tierScan_reaches w k cpu
    (show k.nrSlots - queueMovers w k cpu (flowLocalDsq cpu)
      - queueMovers w k cpu (flowNodeDsq (flowDispatchNode w cpu)) ≠ 0 by omega)
    (show queueVisits w k cpu (flowLocalDsq cpu)
      + queueVisits w k cpu (flowNodeDsq (flowDispatchNode w cpu))
      + queueVisits w k cpu flowMachineDsq ≤ flowDispatchMaxVisit by omega)
  constructor
  case visits =>
    simp only [tierWalks, hv₁, hn₁, hv₂, hn₂, hv₃]
    exact (tierVisits_eq w k cpu).symm
  case slots =>
    simp only [tierWalks, hv₁, hn₁, hv₂, hn₂, hn₃]
    rw [tierMovers_eq]
    omega
  case own => exact hl₁
  case node =>
    simp only [tierWalks, hv₁, hn₁]
    exact hl₂
  case machine =>
    simp only [tierWalks, hv₁, hn₁, hv₂, hn₂]
    exact hl₃

/-- Walks that leave a slot and a visit have reached the first movable entry of every tier. -/
theorem reached_of_open (hslots : (tierWalks w k cpu).slots ≠ 0)
    (hv : (tierWalks w k cpu).visits < flowDispatchMaxVisit) :
    tierMovers w k cpu < k.nrSlots ∧ tierVisits w k cpu < flowDispatchMaxVisit := by
  simp only [tierWalks] at hslots hv
  have hs₁ : k.nrSlots ≠ 0 := by omega
  have hw₁ := tierScan_visits w k cpu (flowLocalDsq cpu) 0 hs₁
  obtain ⟨hv₁, hn₁, -⟩ := tierScan_reaches w k cpu hs₁
    (show 0 + queueVisits w k cpu (flowLocalDsq cpu) ≤ flowDispatchMaxVisit by omega)
  rw [hv₁, hn₁] at hslots hv
  have hs₂ : k.nrSlots - queueMovers w k cpu (flowLocalDsq cpu) ≠ 0 := by omega
  have hw₂ := tierScan_visits w k cpu (flowNodeDsq (flowDispatchNode w cpu))
    (queueVisits w k cpu (flowLocalDsq cpu)) hs₂
  obtain ⟨hv₂, hn₂, -⟩ := tierScan_reaches w k cpu hs₂
    (show queueVisits w k cpu (flowLocalDsq cpu)
      + queueVisits w k cpu (flowNodeDsq (flowDispatchNode w cpu)) ≤ flowDispatchMaxVisit by omega)
  rw [hv₂, hn₂] at hslots hv
  have hs₃ : k.nrSlots - queueMovers w k cpu (flowLocalDsq cpu)
      - queueMovers w k cpu (flowNodeDsq (flowDispatchNode w cpu)) ≠ 0 := by omega
  have hw₃ := tierScan_visits w k cpu flowMachineDsq
    (queueVisits w k cpu (flowLocalDsq cpu)
      + queueVisits w k cpu (flowNodeDsq (flowDispatchNode w cpu))) hs₃
  obtain ⟨-, hn₃, -⟩ := tierScan_reaches w k cpu hs₃
    (show queueVisits w k cpu (flowLocalDsq cpu)
      + queueVisits w k cpu (flowNodeDsq (flowDispatchNode w cpu))
      + queueVisits w k cpu flowMachineDsq ≤ flowDispatchMaxVisit by omega)
  rw [hn₃] at hslots
  rw [tierMovers_eq, tierVisits_eq]
  omega

end Walks

section Taken

theorem flowReclaimTest_congr {w' : World} (ht : w'.taskCtx = w.taskCtx)
    (hc : w'.reclaimCredit = w.reclaimCredit) (tiersEmpty : Bool) (q : TaskRef) :
    flowReclaimTest k w' cpu tiersEmpty q = flowReclaimTest k w cpu tiersEmpty q := by
  unfold flowReclaimTest
  rw [ht, hc]

theorem shortcut_iff : (0 < (flowDispatchDepths w cpu).lq0 ∧ (flowDispatchDepths w cpu).nq0 ≤ 0
      ∧ (flowDispatchDepths w cpu).mq0 ≤ 0)
    ↔ ¬ (w.dsq (flowLocalDsq cpu) = [] ∨ w.dsq (flowNodeDsq (flowDispatchNode w cpu)) ≠ []
      ∨ w.dsq flowMachineDsq ≠ []) := by
  unfold flowDispatchDepths
  simp only [← not_lt, nrQueued_pos]
  tauto

/-- The tier moves and the reclaim, as `RejoinsNext` states them. -/
theorem reclaim_of_tiers {s : Pass} (hl : flowCpuLive w cpu = true) (hs : TierMoved w k cpu s)
    (hgen : w.dsq (flowLocalDsq cpu) = [] ∨ w.dsq (flowNodeDsq (flowDispatchNode w cpu)) ≠ []
      ∨ w.dsq flowMachineDsq ≠ []) :
    ∃ new, (flowDispatchReclaim k cpu (flowDispatchDepths w cpu) s).log = s.log ++ new ∧ ∀ e,
      (⟨flowOverflowDsq, e, true⟩ : Visit) ∈ new ↔ RejoinsNext w k cpu e := by
  obtain ⟨hln, hnm, hmo, hot⟩ := dsq_kinds (flowCpuLive_iff.mp hl).2 (flowDispatchNode_lt w cpu)
  obtain ⟨new, hlog, hnew⟩ := flowDispatchReclaim_moves k cpu (flowDispatchDepths w cpu) s
  have hover : s.world.dsq flowOverflowDsq = w.dsq flowOverflowDsq := by
    refine hs.others _ ?_ (scxLocalOn_ne hot)
    simp only [tierQueues, List.mem_cons, List.not_mem_nil, or_false]
    omega
  have hwalk : reclaimWalk k cpu (flowDispatchDepths w cpu).empty s
      = Scan.walk
        (fun e => (flowReclaimTest k w cpu (flowDispatchDepths w cpu).empty e.task).isSome)
        (flowDispatchMaxVisit - (tierWalks w k cpu).visits) (w.dsq flowOverflowDsq) := by
    unfold reclaimWalk
    rw [hover, hs.visits]
    congr 1
    funext e
    rw [flowReclaimTest_congr hs.keeps.taskCtx hs.credit]
  refine ⟨new, hlog, fun e => ?_⟩
  rw [hnew, hwalk, hs.left]
  constructor
  · rintro ⟨hslots, hw, hnext, htaken⟩
    have hv := hw.visits
    have hp := hw.paid
    rw [hs.visits] at hv
    rw [hs.credit] at hp
    obtain ⟨hmovers, hvisits⟩ := reached_of_open hslots hv
    rw [(tiersReached hmovers hvisits).visits, Scan.hit_eq_find?] at hnext
    exact ⟨hgen, hmovers, hvisits, hp, hnext, htaken⟩
  · intro h
    have hr := tiersReached h.slots h.visits
    have hslots := h.slots
    have hfirst := h.first
    refine ⟨by rw [hr.slots]; omega, ⟨by omega, ?_, ?_, ?_, ?_⟩,
      by rwa [hr.visits, Scan.hit_eq_find?], h.taken⟩
    · rw [Int.toNat_natCast, flowCpuLive_iff, hs.keeps.nrCpuIds]
      exact flowCpuLive_iff.mp hl
    · rw [hs.visits, hr.visits]
      exact h.visits
    · rw [nrQueued_pos, hover]
      intro hnil
      rw [hnil, List.take_nil] at hfirst
      cases hfirst
    · rw [hs.credit]
      exact h.paid

theorem flowDispatchPass_rejoins (hl : flowCpuLive w cpu = true) (e : Entry) :
    (⟨flowOverflowDsq, e, true⟩ : Visit) ∈ (flowDispatchPass w k cpu true).log
      ↔ RejoinsNext w k cpu e := by
  have hc := (flowCpuLive_iff.mp hl).2
  obtain ⟨hln, hnm, hmo, hot⟩ := dsq_kinds hc (flowDispatchNode_lt w cpu)
  by_cases hslots : k.nrSlots = 0
  · refine iff_of_false (fun h => ?_) fun h => Nat.not_lt_zero _ (hslots ▸ h.slots)
    unfold flowDispatchPass at h
    rw [if_neg (by omega)] at h
    simp [hl, hslots, Pass.start] at h
  rw [flowDispatchPass_log hl hslots]
  by_cases hq : w.dsq (flowLocalDsq cpu) = [] ∨ w.dsq (flowNodeDsq (flowDispatchNode w cpu)) ≠ []
      ∨ w.dsq flowMachineDsq ≠ []
  swap
  · refine iff_of_false (fun h => ?_) fun h => hq h.general
    rw [flowDispatchMoves_fast (shortcut_iff.mpr hq) ⟨hslots, by simp [Pass.start]⟩] at h
    obtain ⟨new, hs, -⟩ := flowDispatchLocal_stage (k := k) (s := Pass.start w k.nrSlots) hc
      (flowDispatchDepths w cpu)
    rw [hs.log] at h
    have hd : flowOverflowDsq = flowLocalDsq cpu :=
      hs.queue.dsq_eq _ (by simpa [Pass.start] using h)
    omega
  · have hgen : flowDispatchMoves k cpu (flowDispatchNode w cpu) (flowDispatchDepths w cpu) true
        (Pass.start w k.nrSlots) = flowDispatchSteal k cpu (flowDispatchDepths w cpu)
          (flowDispatchReclaim k cpu (flowDispatchDepths w cpu)
            (tierMoves k cpu (flowDispatchNode w cpu) (flowDispatchDepths w cpu)
              (Pass.start w k.nrSlots))) := by
      unfold flowDispatchMoves
      simp only
      rw [if_neg]
      · rfl
      · simp only [Bool.and_eq_true, decide_eq_true_eq, not_and]
        exact fun h => absurd hq (shortcut_iff.mp h.2)
    have ht := tierMoves_walks (k := k) hl
    rw [hgen]
    generalize tierMoves k cpu (flowDispatchNode w cpu) (flowDispatchDepths w cpu)
      (Pass.start w k.nrSlots) = s at ht
    obtain ⟨n4, hlog, hnew⟩ := reclaim_of_tiers hl ht hq
    obtain ⟨peer, n5, -, hlt, hs5, -⟩ := flowDispatchSteal_stage (k := k) cpu
      (s := flowDispatchReclaim k cpu (flowDispatchDepths w cpu) s) (flowDispatchDepths w cpu)
    have hpk := dsq_kinds hlt (flowDispatchNode_lt w cpu)
    rw [hs5.log, hlog, ht.log, ← hnew, List.mem_append, List.mem_append]
    constructor
    · rintro ((h | h) | h)
      · exfalso
        have htier : ∀ v ∈ tierLog w k cpu, v.dsq ∈ tierQueues w cpu := by
          intro v hv
          simp only [tierLog, scanVisits, List.mem_append, mem_refused, List.mem_map] at hv
          rcases hv with ((⟨_, -, rfl⟩ | ⟨_, -, rfl⟩) | ⟨_, -, rfl⟩ | ⟨_, -, rfl⟩)
            | ⟨_, -, rfl⟩ | ⟨_, -, rfl⟩ <;> simp [tierQueues]
        have hmem := htier _ h
        simp only [tierQueues, List.mem_cons, List.not_mem_nil, or_false] at hmem
        omega
      · exact h
      · have hd : flowOverflowDsq = flowLocalDsq peer := hs5.queue.dsq_eq _ h
        omega
    · exact fun h => Or.inl (Or.inr h)

end Taken

section Pass

/-- A pass leaves no earlier key behind a reject it reclaims exactly on the inputs where the first
reject it can reclaim is in order with what the queues hold past their first movable entries. -/
theorem flowDispatch_rejoin_iff (w : World) (k : Kernel) (cpu : ℕ) (hl : flowCpuLive w cpu = true) :
    NoneBehindRejoin w k cpu (flowDispatchPass w k cpu true) ↔ RejoinsInOrder w k cpu := by
  have hrej := fun e => flowDispatchPass_rejoins (k := k) hl e
  have ht := flowDispatchPass_tiers (k := k) hl true
  generalize flowDispatchPass w k cpu true = s at *
  have hleft {e : Entry} (he : RejoinsNext w k cpu e) {d : ℕ} (hd : d ∈ tierQueues w cpu) :
      s.world.dsq d = (w.dsq d).eraseP (movable k cpu d) := by
    have hr := tiersReached he.slots he.visits
    simp only [tierQueues, List.mem_cons, List.not_mem_nil, or_false] at hd
    rcases hd with rfl | rfl | rfl
    · rw [ht.own, hr.own]
    · rw [ht.node, hr.node]
    · rw [ht.machine, hr.machine]
  constructor
  · intro h e he t hte d hd u hu hmask
    rw [← hleft he hd] at hu
    exact h ⟨flowOverflowDsq, e, true⟩ (mem_movesOf.mpr ⟨(hrej e).mpr he, rfl⟩) rfl t hte d hd u hu
      hmask
  · rintro h ⟨dsq, e, moved⟩ hv rfl t hte d hd u hu hmask
    obtain ⟨hvl, rfl⟩ := mem_movesOf.mp hv
    have he := (hrej e).mp hvl
    rw [hleft he hd] at hu
    exact h e he t hte d hd u hu hmask

/-- Two tasks on the local queue of CPU 0 and one on its node, and an aged reject whose key is after
theirs. -/
def World.laterReject : World :=
  (World.agedReject.setDsq (flowLocalDsq 0) [⟨1, 210000000⟩, ⟨2, 220000000⟩]).setDsq
    (flowNodeDsq 0) [⟨3, 230000000⟩]

/-- The pass reclaims the reject, whose rebuilt key is 350 ms, and leaves the key at 220 ms queued
behind it. -/
theorem flowDispatch_passes_over : flowCpuLive World.laterReject 0 = true
    ∧ ¬ NoneBehindRejoin World.laterReject (Kernel.plain 200000000) 0
      (flowDispatchPass World.laterReject (Kernel.plain 200000000) (0 : ℕ) true) := by
  refine ⟨by decide, fun h => ?_⟩
  have hmoves :
      movesOf (flowDispatchPass World.laterReject (Kernel.plain 200000000) (0 : ℕ) true).log
      = [⟨flowLocalDsq 0, ⟨1, 210000000⟩, true⟩, ⟨flowNodeDsq 0, ⟨3, 230000000⟩, true⟩,
        ⟨flowOverflowDsq, ⟨0, 16256⟩, true⟩] := rfl
  have hkey := h ⟨flowOverflowDsq, ⟨0, 16256⟩, true⟩ (by rw [hmoves]; simp) rfl longReject rfl
    (flowLocalDsq 0) (by decide) ⟨2, 220000000⟩ (by decide) rfl
  exact absurd hkey (by decide)

/-- The same reject with a later key left in the local queue. -/
def World.earlierReject : World :=
  (World.agedReject.setDsq (flowLocalDsq 0) [⟨1, 210000000⟩, ⟨2, 360000000⟩]).setDsq
    (flowNodeDsq 0) [⟨3, 230000000⟩]

/-- The pass takes the keys at 210 ms and 230 ms and reclaims the reject at 350 ms, before the key
at 360 ms it leaves. -/
theorem flowDispatch_rejoin_iff_earlier : flowCpuLive World.earlierReject 0 = true
    ∧ movesOf (flowDispatchPass World.earlierReject (Kernel.plain 200000000) (0 : ℕ) true).log
      = [⟨flowLocalDsq 0, ⟨1, 210000000⟩, true⟩, ⟨flowNodeDsq 0, ⟨3, 230000000⟩, true⟩,
        ⟨flowOverflowDsq, ⟨0, 16256⟩, true⟩]
    ∧ NoneBehindRejoin World.earlierReject (Kernel.plain 200000000) 0
      (flowDispatchPass World.earlierReject (Kernel.plain 200000000) (0 : ℕ) true) := by
  refine ⟨by decide, rfl,
    (flowDispatch_rejoin_iff World.earlierReject (Kernel.plain 200000000) 0 (by decide)).mpr ?_⟩
  intro e he t ht d hd u hu _
  obtain rfl : e = ⟨0, 16256⟩ := Option.some.inj (he.first.symm.trans (by decide +kernel))
  obtain rfl : t = longReject := Option.some.inj (ht.symm.trans rfl)
  revert u
  revert d
  decide

end Pass

end ScxFlow
