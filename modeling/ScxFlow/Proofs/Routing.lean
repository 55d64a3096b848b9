import ScxFlow.Attach
import ScxFlow.Proofs.Admission
import ScxFlow.Proofs.EnqueuePaths
import ScxFlow.Proofs.TierWalks

/-!
# Queue routing

Every id an op inserts into, polls or iterates is one `flow_init` created or the terminal queue of a
live CPU, whatever the node column holds by then: the enqueue sends a node past the count to the
machine queue, the drain skips it, and the pass takes node zero for it.  Where the enqueue and the
pass see one node column they agree on the node.
-/

namespace ScxFlow

variable {w : World} {k : Kernel} {made : List ℕ}

section Attached

theorem initNodes_bounds (topoNode : ℕ → ℕ) (n : ℕ) :
    1 ≤ initNodes topoNode n ∧ initNodes topoNode n ≤ flowMaxNodes := by
  unfold initNodes
  simp only
  split_ifs <;> simp only [flowMaxNodes] at * <;> omega

theorem initCreate_ok {v : InitView} {dsq made : ℕ} (h : initCreate v dsq = .ok made) :
    made = dsq := by
  unfold initCreate at h
  simp only at h
  split_ifs at h
  exact (Except.ok.inj h).symm

theorem initCreate_mapM {v : InitView} :
    ∀ {queues made : List ℕ}, queues.mapM (initCreate v) = .ok made → made = queues
  | [], made, h => (Except.ok.inj h).symm
  | dsq :: queues, made, h => by
    rw [List.mapM_cons] at h
    rcases hd : initCreate v dsq with e | d
    · rw [hd] at h
      cases h
    · rcases ht : queues.mapM (initCreate v) with e | ds
      · rw [hd, ht] at h
        cases h
      · rw [hd, ht] at h
        obtain rfl : d :: ds = made := Except.ok.inj h
        rw [initCreate_ok hd, initCreate_mapM ht]

/-- The counts a scheduler holds from its attach on, over the queues it created. -/
structure Attached (made : List ℕ) (w : World) : Prop where
  cpus : 1 ≤ w.nrCpuIds ∧ w.nrCpuIds ≤ flowMaxCpus
  nodes : 1 ≤ w.nrNodeIds ∧ w.nrNodeIds ≤ flowMaxNodes
  made : made = initQueues w.nrCpuIds w.nrNodeIds

theorem flowInit_attached {v : InitView} {w' : World}
    (h : flowInit w v = .ok (w', made)) : Attached made w' ∧ w'.nrCpuIds = v.nrCpuIds := by
  unfold flowInit at h
  simp only at h
  split_ifs at h with hmax hzero hdsqs
  rcases hq : (initQueues v.nrCpuIds (initNodes w.topoNode v.nrCpuIds)).mapM (initCreate v)
    with e | ds
  · rw [hq] at h
    cases h
  · rw [hq] at h
    obtain ⟨rfl, rfl⟩ := Prod.mk.inj (Except.ok.inj h)
    exact ⟨⟨⟨Nat.pos_of_ne_zero hzero, not_lt.mp hmax⟩, initNodes_bounds _ _,
      initCreate_mapM hq⟩, rfl⟩

theorem Attached.of_counts {w' : World} (h : Attached made w)
    (hc : w'.nrCpuIds = w.nrCpuIds) (hn : w'.nrNodeIds = w.nrNodeIds) : Attached made w' := by
  obtain ⟨hcpus, hnodes, hmade⟩ := h
  rw [← hc] at hcpus hmade
  rw [← hn] at hnodes hmade
  exact ⟨hcpus, hnodes, hmade⟩

/-- The two counts of `flow_init`. -/
def World.counts (w : World) : ℕ × ℕ := (w.nrCpuIds, w.nrNodeIds)

theorem run_counts (k : Kernel) (p : TaskRef) (es : List Effect) :
    (w.run k p es).counts = w.counts := by
  induction es generalizing w with
  | nil => rfl
  | cons e es ih =>
    obtain ⟨-, -, hc, hn⟩ := perform_frame w k p e
    rw [run_cons, ih]
    exact Prod.ext hc hn

theorem flowDispatch_counts (w : World) (k : Kernel) (cpu : ℤ) :
    (flowDispatch w k cpu).counts = w.counts := by
  by_cases h0 : cpu < 0
  · simp [flowDispatch, flowDispatchPass, h0, Pass.start]
  obtain ⟨c, rfl⟩ : ∃ c : ℕ, cpu = c := ⟨cpu.toNat, by omega⟩
  rcases hl : flowCpuLive w c with _ | _
  · have hp : flowDispatch w k c = flowCount w k .gateRejects 1 := by
      simp [flowDispatch, flowDispatchPass, h0, hl, Pass.start]
    rw [hp, flowCount_eq]
    rfl
  by_cases hslots : k.nrSlots = 0
  · simp only [flowDispatch, flowDispatchPass, h0, Int.toNat_natCast, hl, hslots, Bool.not_true,
      Bool.false_eq_true, ↓reduceIte, Pass.start]
    rw [flowPerfUpdateHint_eq]
    rfl
  · obtain ⟨stats, levels, hw⟩ := flowDispatch_world hl hslots
    obtain ⟨Q, hok, -⟩ := flowDispatchMoves_ok (w := w) (k := k) (flowCpuLive_iff.mp hl).2
      (flowDispatchNode_lt w c) (flowDispatchDepths w c) true
    rw [hw]
    exact Prod.ext hok.keeps.nrCpuIds hok.keeps.nrNodeIds

/-- No op of a run changes the counts. -/
theorem step_counts (w : World) (c : Call) : (w.step c).counts = w.counts := by
  obtain ⟨k, op⟩ := c
  have hcgroup (hop : op.isCgroup = true) : (w.step ⟨k, op⟩).counts = w.counts := by
    obtain ⟨stor, cache, heq⟩ := step_cgroup w k hop
    rw [heq]
    rfl
  cases op with
  | enqueue p enqFlags => exact run_counts k p _
  | running p => exact run_counts k p _
  | stopping p runnable => exact run_counts k p _
  | enable p => exact run_counts k p _
  | disable p => exact run_counts k p _
  | exitTask p => exact run_counts k p _
  | cpuRelease cpu =>
    show (flowCpuRelease w k cpu).counts = w.counts
    unfold flowCpuRelease
    split
    · rw [flowCount_eq]
      rfl
    · rw [flowClearRunning_eq]
      rfl
  | dispatch cpu => exact flowDispatch_counts w k cpu
  | setWeight p weight =>
    show (flowSetWeight w p weight).counts = w.counts
    rw [flowSetWeight_eq]
    rfl
  | cgroupInit cgrp => exact hcgroup rfl
  | cgroupExit cgrp => exact hcgroup rfl
  | cgroupMove p dst => exact hcgroup rfl
  | cgroupSetWeight cgrp weight => exact hcgroup rfl

end Attached

section QueueIds

/-- The id ranges of the four kinds of queues do not meet. -/
theorem initQueues_nodup {n : ℕ} (nodes : ℕ) (hn : n ≤ flowMaxCpus) :
    (initQueues n nodes).Nodup := by
  have hnn : (if nodes > flowMaxNodes then flowMaxNodes else nodes) ≤ flowMaxNodes := by
    split
    · exact le_refl _
    · omega
  unfold initQueues
  simp only
  generalize (if nodes > flowMaxNodes then flowMaxNodes else nodes) = nn at hnn
  have hlocal : ((List.range n).map flowLocalDsq).Nodup :=
    List.nodup_range.map fun a b => flowLocalDsq_inj
  have hnode : ((List.range nn).map flowNodeDsq).Nodup :=
    List.nodup_range.map fun a b h => by simpa [flowNodeDsq] using h
  have hrest : [flowMachineDsq, flowOverflowDsq].Nodup := by decide
  refine (hlocal.append hnode ?_).append hrest ?_
  · intro d hd hd'
    obtain ⟨cpu, hcpu, rfl⟩ := List.mem_map.mp hd
    obtain ⟨node, hnode, heq⟩ := List.mem_map.mp hd'
    have hkinds := dsq_kinds ((List.mem_range.mp hcpu).trans_le hn)
      ((List.mem_range.mp hnode).trans_le hnn)
    omega
  · intro d hd hd'
    have hlt : d < flowMachineDsq := by
      rcases List.mem_append.mp hd with hd | hd
      · obtain ⟨cpu, hcpu, rfl⟩ := List.mem_map.mp hd
        exact flowLocalDsq_lt ((List.mem_range.mp hcpu).trans_le hn)
      · obtain ⟨node, hnode, rfl⟩ := List.mem_map.mp hd
        exact flowNodeDsq_lt ((List.mem_range.mp hnode).trans_le hnn)
    rcases List.mem_pair.mp hd' with rfl | rfl
    · exact lt_irrefl _ hlt
    · exact absurd hlt (by decide)

/-- An id the kernel knows: created, or the terminal queue of a live CPU. -/
def Touchable (made : List ℕ) (w : World) (dsq : ℕ) : Prop :=
  dsq ∈ made ∨ ∃ cpu, flowCpuLive w cpu = true ∧ dsq = scxLocalOn cpu

theorem Attached.localDsq (h : Attached made w) {cpu : ℕ} (hl : flowCpuLive w cpu = true) :
    Touchable made w (flowLocalDsq cpu) := by
  left
  rw [h.made, initQueues, List.append_assoc]
  exact List.mem_append_left _
    (List.mem_map.mpr ⟨cpu, List.mem_range.mpr (flowCpuLive_iff.mp hl).1, rfl⟩)

theorem Attached.nodeDsq (h : Attached made w) {node : ℕ} (hn : node < w.nrNodeIds) :
    Touchable made w (flowNodeDsq node) := by
  left
  rw [h.made, initQueues, if_neg (not_lt.mpr h.nodes.2)]
  exact List.mem_append_left _ (List.mem_append_right _
    (List.mem_map.mpr ⟨node, List.mem_range.mpr hn, rfl⟩))

theorem Attached.machineDsq (h : Attached made w) : Touchable made w flowMachineDsq := by
  left
  rw [h.made, initQueues]
  simp

theorem Attached.overflowDsq (h : Attached made w) : Touchable made w flowOverflowDsq := by
  left
  rw [h.made, initQueues]
  simp

/-- The node a pass drains was counted at init, whatever the node column holds now. -/
theorem Attached.dispatchNode (h : Attached made w) (cpu : ℕ) :
    flowDispatchNode w cpu < w.nrNodeIds := by
  unfold flowDispatchNode
  simp only
  split_ifs with hnode
  · exact h.nodes.1
  · exact not_le.mp (not_or.mp hnode).2

theorem Attached.tier (h : Attached made w) {cpu dsq : ℕ} (hl : flowCpuLive w cpu = true)
    (hd : dsq ∈ tierQueues w cpu) : Touchable made w dsq := by
  simp only [tierQueues, List.mem_cons, List.not_mem_nil, or_false] at hd
  rcases hd with rfl | rfl | rfl
  · exact h.localDsq hl
  · exact h.nodeDsq (h.dispatchNode cpu)
  · exact h.machineDsq

end QueueIds

section Enqueue

theorem flowTierInsertHint_queue (w : World) (cpu : ℤ) (vtime now : UInt64) (localQ nodeQ : ℤ) :
    ∃ dsq ∈ tierQueues w cpu.toNat,
      flowTierInsertHint w cpu vtime now localQ nodeQ = .insertVtime dsq vtime 0 := by
  unfold flowTierInsertHint tierQueues
  split
  · exact ⟨_, List.mem_cons_self, rfl⟩
  · split
    · simp only
      split
      · rename_i hnode
        have hfold : flowDispatchNode w cpu.toNat = flowCpuNode w cpu.toNat := by
          unfold flowDispatchNode
          simp only
          rw [if_neg]
          omega
        exact ⟨flowNodeDsq (flowCpuNode w cpu.toNat), by simp [hfold], rfl⟩
      · exact ⟨flowMachineDsq, by simp, rfl⟩
    · exact ⟨flowMachineDsq, by simp, rfl⟩

theorem flowTierInsert_queue (w : World) (cpu : ℤ) (vtime now : UInt64) :
    ∃ dsq ∈ tierQueues w cpu.toNat, flowTierInsert w cpu vtime now = .insertVtime dsq vtime 0 := by
  unfold flowTierInsert
  split
  · exact flowTierInsertHint_queue w cpu vtime now _ _
  · exact flowTierInsertHint_queue w cpu vtime now _ _

/-- The placement bypasses to the terminal queue of the target or joins one of its tiers. -/
theorem flowEnqueuePlace_inserts (w : World) (e : FlowEnqueueTail) :
    insertions (flowEnqueuePlace w e).2 = [scxLocalOn e.cpu.toNat]
      ∨ ∃ dsq ∈ tierQueues w e.cpu.toNat, insertions (flowEnqueuePlace w e).2 = [dsq] := by
  unfold flowEnqueuePlace
  split
  · split
    · exact Or.inl rfl
    · obtain ⟨dsq, hd, hins⟩ := flowTierInsertHint_queue w e.cpu e.vtime e.now
        (nrQueued w (flowLocalDsq e.cpu.toNat)) (nodeQueued w e.cpu.toNat)
      simp only [hins]
      exact Or.inr ⟨dsq, hd, rfl⟩
  · obtain ⟨dsq, hd, hins⟩ := flowTierInsert_queue w e.cpu e.vtime e.now
    simp only [hins]
    exact Or.inr ⟨dsq, hd, rfl⟩

/-- Where an enqueue inserts its task. -/
inductive Inserted (w : World) (k : Kernel) (p : TaskRef) : ℕ → Prop
  | terminal (cpu : ℤ) (hok : flowCpuOk w (k.task p) cpu = true) :
    Inserted w k p (scxLocalOn cpu.toNat)
  | reject : Inserted w k p flowOverflowDsq
  | tier {dsq : ℕ} (hok : flowCpuOk w (k.task p) (enqueueTarget w k p) = true)
    (hd : dsq ∈ tierQueues w (enqueueTarget w k p).toNat) : Inserted w k p dsq

theorem insertions_of_isSetup {es : List Effect} (h : ∀ e ∈ es, e.isSetup = true) :
    insertions es = [] := by
  rw [insertions_eq_nil]
  intro e he
  have hs := h e he
  cases e <;> simp_all [Effect.isSetup, Effect.insertedTo]

theorem Ends.inserted {p : TaskRef} {enqFlags : UInt64}
    {tail : Option (FlowTaskCtx × FlowEnqueueTail)} {ctx : Option FlowTaskCtx}
    {rest : List Effect} (h : Ends w k p enqFlags tail ctx rest) :
    ∀ dsq ∈ insertions rest, Inserted w k p dsq := by
  have hidle (t : Option FlowTaskCtx) :
      insertions (flowKickIdleAllowed w k p t (k.task p).selectedCpu) = [] :=
    insertions_of_aside (aside_of_isKick (flowKickIdleAllowed_isKick w k p t _))
  intro dsq hd
  cases h with
  | exiting cpu hx hok =>
    have hkick : insertions (if cpuIdle w cpu.toNat then [.kickIdle cpu, .count .kicks 1] else [])
        = [] := by
      split
      · rfl
      · rfl
    rw [insertions_append, hkick, List.append_nil] at hd
    obtain rfl := List.mem_singleton.mp hd
    exact .terminal cpu hok
  | rejected c hc key flags =>
    rw [insertions_append, hidle] at hd
    obtain rfl : flowOverflowDsq = dsq := by simpa [insertions, Effect.insertedTo] using hd
    exact .reject
  | rejoined vtime hok =>
    obtain ⟨q, hq, hins⟩ := flowTierInsert_queue w (enqueueTarget w k p) vtime k.now
    rw [insertions_append, hidle, hins] at hd
    obtain rfl : dsq = q := by simpa [insertions, Effect.insertedTo] using hd
    exact .tier hok hq
  | placed t e hcpu hok hnow helig =>
    have hkick : insertions (if (flowEnqueuePlace w e).1 then [] else flowEnqueueKick w k p t e)
        = [] := by
      split
      · rfl
      · exact insertions_of_aside (aside_of_isKick (flowEnqueueKick_isKick w k p t e))
    have hone : insertions ([.count .admits 1] ++ (flowEnqueuePlace w e).2)
        = insertions (flowEnqueuePlace w e).2 := rfl
    rw [insertions_append, hkick, List.append_nil, hone] at hd
    rcases flowEnqueuePlace_inserts w e with hins | ⟨q, hq, hins⟩
    · rw [hins] at hd
      obtain rfl := List.mem_singleton.mp hd
      exact .terminal e.cpu hok
    · rw [hins] at hd
      obtain rfl := List.mem_singleton.mp hd
      rw [hcpu] at hok hq
      exact .tier hok hq

theorem flowEnqueue_inserted (p : TaskRef) (enqFlags : UInt64) :
    ∀ dsq ∈ insertions (flowEnqueue w k p enqFlags).eff, Inserted w k p dsq := by
  obtain ⟨pre, rest, heff, hpre, hends⟩ := flowEnqueue_ends w k p enqFlags
  rw [heff, insertions_append, insertions_of_isSetup hpre, List.nil_append]
  exact hends.inserted

end Enqueue

section Steal

variable {cpu : ℤ} {visits window start : ℕ}

theorem stealPeerPoll_live (f : StealPeers) (off : ℕ) :
    ∀ dsq ∈ stealPeerPoll w cpu visits window start f off,
      ∃ peer, flowCpuLive w peer = true ∧ dsq = flowLocalDsq peer := by
  unfold stealPeerPoll
  simp only
  split_ifs with h₁ h₂ h₃ h₄ h₅
  iterate 5 exact fun dsq hd => absurd hd List.not_mem_nil
  intro dsq hd
  exact ⟨_, by simpa using h₅, List.mem_singleton.mp hd⟩

/-- A steal polls local queues of live peers only. -/
theorem stealPolled_live : ∀ (offs : List ℕ) (f : StealPeers × List ℕ),
    (∀ dsq ∈ f.2, ∃ peer, flowCpuLive w peer = true ∧ dsq = flowLocalDsq peer) →
      ∀ dsq ∈ (offs.foldl (stealPolled w cpu visits window start) f).2,
        ∃ peer, flowCpuLive w peer = true ∧ dsq = flowLocalDsq peer
  | [], _, hf => hf
  | off :: offs, f, hf => stealPolled_live offs _ fun dsq hd => by
    rcases List.mem_append.mp hd with hd | hd
    · exact hf dsq hd
    · exact stealPeerPoll_live f.1 off dsq hd

theorem flowStealPolls_live (cursor : ℕ) :
    ∀ dsq ∈ flowStealPolls w cpu visits cursor,
      ∃ peer, flowCpuLive w peer = true ∧ dsq = flowLocalDsq peer := by
  unfold flowStealPolls
  split_ifs
  iterate 4 exact fun dsq hd => absurd hd List.not_mem_nil
  exact stealPolled_live _ _ fun dsq hd => absurd hd List.not_mem_nil

/-- The peers found so far were polled. -/
def PeersPolled (f : StealPeers × List ℕ) : Prop :=
  ∀ peer, f.1.localPeer = some peer ∨ f.1.remotePeer = some peer → flowLocalDsq peer ∈ f.2

theorem PeersPolled.next {f : StealPeers × List ℕ} (h : PeersPolled f) (off : ℕ) :
    PeersPolled (stealPolled w cpu visits window start f off) := by
  have hold : ∀ poll : List ℕ, PeersPolled (f.1, f.2 ++ poll) := fun poll peer hp =>
    List.mem_append_left _ (h peer hp)
  unfold stealPolled stealPeer stealPeerPoll
  simp only
  split
  · exact hold _
  split
  · exact hold _
  split
  · exact hold _
  split
  · exact hold _
  split
  · exact hold _
  split
  · exact hold _
  split
  · split
    · rintro peer (hp | hp)
      · rw [← Option.some.inj hp]
        exact List.mem_append_right _ List.mem_cons_self
      · exact hold _ peer (Or.inr hp)
    · exact hold _
  · split
    · rintro peer (hp | hp)
      · exact hold _ peer (Or.inl hp)
      · rw [← Option.some.inj hp]
        exact List.mem_append_right _ List.mem_cons_self
    · exact hold _

theorem stealPolled_peers (w : World) (cpu : ℤ) (visits window start : ℕ) :
    ∀ (offs : List ℕ) (f : StealPeers × List ℕ), PeersPolled f →
    PeersPolled (offs.foldl (stealPolled w cpu visits window start) f)
      ∧ (offs.foldl (stealPolled w cpu visits window start) f).1
        = offs.foldl (stealPeer w cpu visits window start) f.1
  | [], _, h => ⟨h, rfl⟩
  | off :: offs, _, h => stealPolled_peers w cpu visits window start offs _ (h.next off)

end Steal

/-- A steal iterates one of the queues it polled, or none. -/
theorem flowStealOne_iterates (k : Kernel) (cpu : ℤ) (cursor : ℕ) (s : Pass) :
    flowStealOne k cpu cursor s = (s, 0)
      ∨ ∃ dsq ∈ flowStealPolls s.world cpu s.visits cursor, flowStealOne k cpu cursor s
        = flowMoveOneHint k dsq cpu (nrQueued s.world dsq) s := by
  unfold flowStealOne flowStealPolls
  simp only
  split
  · exact Or.inl rfl
  split
  · exact Or.inl rfl
  split
  · exact Or.inl rfl
  split
  · exact Or.inl rfl
  rename_i hv hn
  obtain ⟨hpolled, hpeers⟩ := stealPolled_peers s.world cpu s.visits
    (stealWindow s.world cpu s.visits) (flowWrapIdx (cursor + 1) s.world.nrCpuIds)
    (List.range flowStealMaxPeers) (⟨none, none⟩, []) (by rintro peer (h | h) <;> cases h)
  generalize hf : List.foldl (stealPolled _ _ _ _ _) _ _ = f at *
  rw [← hpeers]
  obtain ⟨⟨near, far⟩, polled⟩ := f
  rcases near with _ | peer
  · rcases far with _ | peer
    · exact Or.inl rfl
    · exact Or.inr ⟨_, hpolled peer (Or.inr rfl), rfl⟩
  · exact Or.inr ⟨_, hpolled peer (Or.inl rfl), rfl⟩

section Pass

variable {cpu : ℕ} {s : Pass}

theorem flowMoveOneHint_log (k : Kernel) (dsq : ℕ) (cpu queued : ℤ) (s : Pass) :
    ∀ v ∈ (flowMoveOneHint k dsq cpu queued s).1.log, v ∈ s.log ∨ v.dsq = dsq := by
  unfold flowMoveOneHint
  split_ifs
  iterate 4 exact fun v hv => Or.inl hv
  intro v hv
  simp only [Pass.walked, List.mem_append, List.mem_map] at hv
  rcases hv with hv | ⟨e, -, rfl⟩ | ⟨e, -, rfl⟩
  · exact Or.inl hv
  · exact Or.inr rfl
  · exact Or.inr rfl

theorem flowDispatchTier_log (dsq : ℕ) (cpu queued : ℤ) :
    ∀ v ∈ (flowDispatchTier k dsq cpu queued s).1.log,
      v ∈ s.log ∨ v.dsq ∈ tierTouches dsq queued s := by
  unfold flowDispatchTier tierTouches
  split
  · split
    · intro v hv
      exact (flowMoveOneHint_log k dsq cpu queued s v hv).imp_right List.mem_singleton.mpr
    · exact fun v hv => Or.inl hv
  · exact fun v hv => Or.inl hv

theorem flowDispatchReclaim_log (d : Depths) :
    ∀ v ∈ (flowDispatchReclaim k cpu d s).log, v ∈ s.log ∨ v.dsq ∈ reclaimTouches s := by
  intro v hv
  by_cases hopen : s.left ≠ 0 ∧ s.visits < flowDispatchMaxVisit
  · obtain ⟨new, hs, -⟩ := flowDispatchReclaim_stage (k := k) cpu (s := s) d
    rw [hs.log] at hv
    refine (List.mem_append.mp hv).imp_right fun hv => ?_
    rw [hs.queue.dsq_eq v hv, reclaimTouches, if_pos hopen]
    exact List.mem_cons_self
  · rw [flowDispatchReclaim_of_spent (by omega)] at hv
    exact Or.inl hv

theorem flowStealOne_log (k : Kernel) (cpu : ℤ) (cursor : ℕ) (s : Pass) :
    ∀ v ∈ (flowStealOne k cpu cursor s).1.log,
      v ∈ s.log ∨ v.dsq ∈ flowStealPolls s.world cpu s.visits cursor := by
  intro v hv
  rcases flowStealOne_iterates k cpu cursor s with hnone | ⟨dsq, hd, hmove⟩
  · rw [hnone] at hv
    exact Or.inl hv
  · rw [hmove] at hv
    refine (flowMoveOneHint_log k dsq cpu _ s v hv).imp_right fun h => ?_
    rwa [h]

theorem flowDispatchSteal_log (cpu : ℤ) (d : Depths) :
    ∀ v ∈ (flowDispatchSteal k cpu d s).log, v ∈ s.log ∨ v.dsq ∈ stealTouches cpu d s := by
  unfold flowDispatchSteal stealTouches
  split
  · simp only
    split
    · exact flowStealOne_log k cpu _ s
    · exact fun v hv => Or.inl hv
  · exact fun v hv => Or.inl hv

/-- The moves of a pass iterate queues of its trace only. -/
theorem flowDispatchMoves_log (node : ℕ) (d : Depths) :
    ∀ v ∈ (flowDispatchMoves k cpu node d true s).log,
      v ∈ s.log ∨ v.dsq ∈ movesTouches k cpu node d s := by
  unfold flowDispatchMoves movesTouches
  simp only [Bool.true_and]
  split
  · exact flowDispatchTier_log (flowLocalDsq cpu) cpu d.lq0
  · unfold flowDispatchGeneral
    intro v hv
    simp only [List.mem_append]
    rcases flowDispatchSteal_log cpu d v hv with hv | hv
    swap
    · exact Or.inr (Or.inr hv)
    rcases flowDispatchReclaim_log d v hv with hv | hv
    swap
    · exact Or.inr (Or.inl (Or.inr hv))
    rcases flowDispatchTier_log flowMachineDsq cpu d.mq0 v hv with hv | hv
    swap
    · exact Or.inr (Or.inl (Or.inl (Or.inr hv)))
    rcases flowDispatchTier_log (flowNodeDsq node) cpu d.nq0 v hv with hv | hv
    swap
    · exact Or.inr (Or.inl (Or.inl (Or.inl (Or.inr hv))))
    rcases flowDispatchTier_log (flowLocalDsq cpu) cpu d.lq0 v hv with hv | hv
    swap
    · exact Or.inr (Or.inl (Or.inl (Or.inl (Or.inl hv))))
    exact Or.inl hv

theorem tierTouches_eq {dsq d : ℕ} {queued : ℤ} (h : d ∈ tierTouches dsq queued s) : d = dsq := by
  unfold tierTouches at h
  split_ifs at h
  · exact List.mem_singleton.mp h
  · exact absurd h List.not_mem_nil
  · exact absurd h List.not_mem_nil

theorem Attached.stealTouches (h : Attached made w) (hk : Keeps w s.world) (cpu : ℤ) (d : Depths) :
    ∀ dsq ∈ stealTouches cpu d s, Touchable made w dsq := by
  unfold ScxFlow.stealTouches
  simp only
  split_ifs
  · intro dsq hd
    obtain ⟨peer, hl, rfl⟩ := flowStealPolls_live _ dsq hd
    refine h.localDsq (flowCpuLive_iff.mpr ?_)
    rw [← hk.nrCpuIds]
    exact flowCpuLive_iff.mp hl
  · exact fun dsq hd => absurd hd List.not_mem_nil
  · exact fun dsq hd => absurd hd List.not_mem_nil

theorem Attached.movesTouches (h : Attached made w) (hl : flowCpuLive w cpu = true) :
    ∀ dsq ∈ movesTouches k cpu (flowDispatchNode w cpu) (flowDispatchDepths w cpu)
      (Pass.start w k.nrSlots), Touchable made w dsq := by
  have hlocal := h.localDsq hl
  unfold ScxFlow.movesTouches
  simp only [Int.toNat_natCast]
  split
  · intro dsq hd
    rw [tierTouches_eq hd]
    exact hlocal
  · intro dsq hd
    have htiers := (tierMoves_walks (k := k) hl).keeps
    unfold tierMoves at htiers
    obtain ⟨new, hreclaim, -⟩ := flowDispatchReclaim_stage (k := k) cpu
      (s := tierMoves k cpu (flowDispatchNode w cpu) (flowDispatchDepths w cpu)
        (Pass.start w k.nrSlots)) (flowDispatchDepths w cpu)
    simp only [List.mem_append] at hd
    rcases hd with (((hd | hd) | hd) | hd) | hd
    · rw [tierTouches_eq hd]
      exact hlocal
    · rw [tierTouches_eq hd]
      exact h.nodeDsq (h.dispatchNode cpu)
    · rw [tierTouches_eq hd]
      exact h.machineDsq
    · unfold reclaimTouches at hd
      split_ifs at hd
      · rw [List.mem_singleton.mp hd]
        exact h.overflowDsq
      · exact absurd hd List.not_mem_nil
    · exact h.stealTouches (htiers.trans hreclaim.keeps) cpu _ dsq hd

end Pass

/-- The visits of a pass lie in its trace. -/
theorem flowDispatch_visits (w : World) (k : Kernel) (cpu : ℤ) :
    ∀ v ∈ (flowDispatchPass w k cpu true).log, v.dsq ∈ flowDispatchTouches w k cpu := by
  unfold flowDispatchPass flowDispatchTouches
  split
  · exact fun v hv => absurd hv List.not_mem_nil
  split
  · exact fun v hv => absurd hv List.not_mem_nil
  obtain ⟨c, rfl⟩ : ∃ c : ℕ, cpu = c := ⟨cpu.toNat, by omega⟩
  simp only [Int.toNat_natCast]
  split
  · exact fun v hv => absurd hv List.not_mem_nil
  · intro v hv
    rcases flowDispatchMoves_log (flowDispatchNode w c) (flowDispatchDepths w c) v hv with hv | hv
    · exact absurd hv List.not_mem_nil
    · exact List.mem_append_right _ hv

theorem Attached.dispatch (h : Attached made w) (k : Kernel) (cpu : ℤ) :
    ∀ dsq ∈ flowDispatchTouches w k cpu, Touchable made w dsq := by
  unfold flowDispatchTouches
  split
  · exact fun dsq hd => absurd hd List.not_mem_nil
  split
  · exact fun dsq hd => absurd hd List.not_mem_nil
  rename_i hneg hlive
  obtain ⟨c, rfl⟩ : ∃ c : ℕ, cpu = c := ⟨cpu.toNat, by omega⟩
  simp only [Int.toNat_natCast, Bool.not_eq_true', Bool.not_eq_false] at hlive ⊢
  intro dsq hd
  rcases List.mem_append.mp hd with hd | hd
  · simp only [List.mem_cons, List.not_mem_nil, or_false] at hd
    rcases hd with rfl | rfl | rfl | rfl
    · exact h.localDsq hlive
    · exact Or.inr ⟨c, hlive, rfl⟩
    · exact h.nodeDsq (h.dispatchNode c)
    · exact h.machineDsq
  · split at hd
    · exact absurd hd List.not_mem_nil
    · exact h.movesTouches hlive dsq hd

section Contract

/-- No op of `w` touches an id the kernel does not know. -/
structure RoutingClosed (made : List ℕ) (w : World) : Prop where
  enqueue : ∀ k p enqFlags, ∀ dsq ∈ insertions (flowEnqueue w k p enqFlags).eff,
    Touchable made w dsq
  dispatch : ∀ k cpu, ∀ dsq ∈ flowDispatchTouches w k cpu, Touchable made w dsq
  visits : ∀ k cpu, ∀ v ∈ (flowDispatchPass w k cpu true).log, v.dsq ∈ flowDispatchTouches w k cpu
  steal : ∀ cpu visits cursor, ∀ dsq ∈ flowStealPolls w cpu visits cursor, Touchable made w dsq
  drain : ∀ cpu, flowCpuLive w cpu = true → ∀ dsq ∈ (flowCpuDrain w cpu).2, Touchable made w dsq

/-- A tier an enqueue of `w` chooses is one that a pass of `w'` on the task's target drains, and the
target is in the task's mask. -/
def RoutingAgreed (w w' : World) : Prop :=
  ∀ k p enqFlags, ∀ dsq ∈ insertions (flowEnqueue w k p enqFlags).eff, IsTier dsq →
    flowCpuOk w (k.task p) (enqueueTarget w k p) = true
      ∧ dsq ∈ tierQueues w' (enqueueTarget w k p).toNat

theorem Attached.closed (h : Attached made w) : RoutingClosed made w := by
  have hcpu {ts : TaskStruct} {cpu : ℤ} (hok : flowCpuOk w ts cpu = true) :
      flowCpuLive w cpu.toNat = true :=
    flowCpuLive_iff.mpr ⟨(flowCpuOk_iff.mp hok).2.1, (flowCpuOk_iff.mp hok).2.2.1⟩
  constructor
  case enqueue =>
    intro k p enqFlags dsq hd
    cases flowEnqueue_inserted p enqFlags dsq hd with
    | terminal cpu hok => exact Or.inr ⟨_, hcpu hok, rfl⟩
    | reject => exact h.overflowDsq
    | tier hok hq => exact h.tier (hcpu hok) hq
  case dispatch => exact h.dispatch
  case visits => exact flowDispatch_visits w
  case steal =>
    intro cpu visits cursor dsq hd
    obtain ⟨peer, hl, rfl⟩ := flowStealPolls_live cursor dsq hd
    exact h.localDsq hl
  case drain =>
    intro cpu hl
    unfold flowCpuDrain
    simp only
    split
    · rename_i hnode
      intro dsq hd
      rcases List.mem_pair.mp hd with rfl | rfl
      · exact h.localDsq hl
      · exact h.nodeDsq hnode.2
    · intro dsq hd
      rw [List.mem_singleton.mp hd]
      exact h.localDsq hl

theorem routingAgreed {w' : World} (ht : w'.topoNode = w.topoNode)
    (hn : w'.nrNodeIds = w.nrNodeIds) : RoutingAgreed w w' := by
  intro k p enqFlags dsq hd htier
  have hnode (cpu : ℕ) : flowDispatchNode w' cpu = flowDispatchNode w cpu := by
    unfold flowDispatchNode flowCpuNode
    rw [ht, hn]
  cases flowEnqueue_inserted p enqFlags dsq hd with
  | terminal cpu hok => exact absurd htier.lt (scxLocalOn_ge _ |>.trans' (by decide) |>.not_gt)
  | reject => exact absurd htier.lt (lt_irrefl _)
  | tier hok hq =>
    refine ⟨hok, ?_⟩
    unfold tierQueues at hq ⊢
    rwa [hnode]

/-- The scheduler with the node column reseeded between its ops. -/
def reseeded : Machine World (Call ⊕ (ℕ → ℕ)) Unit where
  step w
    | .inl c => w.step c
    | .inr topoNode => { w with topoNode := topoNode }
  out _ _ := []

theorem reseeded_counts : ∀ (w : World) (ls : List (Call ⊕ (ℕ → ℕ))),
    (reseeded.exec w ls).counts = w.counts
  | _, [] => rfl
  | w, .inl c :: ls => (reseeded_counts (w.step c) ls).trans (step_counts w c)
  | w, .inr topoNode :: ls => reseeded_counts { w with topoNode := topoNode } ls

/-- Routing from every attach on.  The created ids are distinct, every run keeps the counts, and
under the counts no op touches another id, whatever the node column and the rest of the state; two
states with one node column agree on the tiers. -/
theorem flowInit_routing (w₀ : World) (v : InitView) (w₁ : World) (made : List ℕ)
    (h : flowInit w₀ v = .ok (w₁, made)) :
    made = initQueues v.nrCpuIds w₁.nrNodeIds ∧ made.Nodup
      ∧ (∀ ls, (reseeded.exec w₁ ls).counts = w₁.counts)
      ∧ ∀ w, w.counts = w₁.counts → RoutingClosed made w
        ∧ ∀ w', w'.counts = w₁.counts → w'.topoNode = w.topoNode → RoutingAgreed w w' := by
  obtain ⟨hatt, hcpus⟩ := flowInit_attached h
  refine ⟨?_, ?_, reseeded_counts w₁, fun w hw => ⟨?_, fun w' hw' ht => ?_⟩⟩
  · rw [← hcpus]
    exact hatt.made
  · rw [hatt.made]
    exact initQueues_nodup _ hatt.cpus.2
  · exact (hatt.of_counts (Prod.mk.inj hw).1 (Prod.mk.inj hw).2).closed
  · exact routingAgreed ht ((Prod.mk.inj hw').2.trans (Prod.mk.inj hw).2.symm)

/-- Two CPUs on two nodes, before the attach. -/
def World.seeded : World := World.boot 0 0 fun cpu => cpu

/-- The same two CPUs after it. -/
def World.attached : World :=
  { World.boot 2 2 fun cpu => cpu with
    cpuState := fun cpu => if cpu < 2 then ⟨0, UInt32.ofNat cpu, 0⟩ else World.seeded.cpuState cpu }

theorem flowInit_routing_two : let made := initQueues 2 2
    made.Nodup ∧ (∀ ls, (reseeded.exec World.attached ls).counts = World.attached.counts)
      ∧ ∀ w, w.counts = World.attached.counts → RoutingClosed made w
        ∧ ∀ w', w'.counts = World.attached.counts → w'.topoNode = w.topoNode → RoutingAgreed w w' :=
  (flowInit_routing World.seeded ⟨2, fun _ => 0⟩ World.attached (initQueues 2 2) rfl).2

end Contract

end ScxFlow
