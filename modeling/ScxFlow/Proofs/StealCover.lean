import ScxFlow.Proofs.Shortcut
import ScxFlow.Proofs.StealScan

/-!
# The steals of an idle CPU, pass after pass

A CPU with nothing queued steals from one peer of the window behind its cursor.  The cursor moves
with a task only, so a pass that steals nothing leaves the next one the same window: a run of passes
steals exactly when the peer of its first window holds a task the CPU may take.
-/

namespace ScxFlow

variable {w : World} {k : Kernel} {cpu : ℕ}

/-- The peer that the thief settles on behind its cursor holds, among its first eight, a task the
kernel moves to the thief. -/
def StealReaches (w : World) (k : Kernel) (cpu : ℕ) : Prop :=
  let cursor := (w.cpuState cpu).cursor.toNat
  ∃ off, PeerPicked w cpu cursor off
    ∧ ∃ e ∈ (w.dsq (flowLocalDsq (windowPeer w cursor off))).take flowDispatchMaxVisit,
      flowMoveCandidate k (flowLocalDsq (windowPeer w cursor off)) cpu e.task = true

/-- An idle CPU of a host of two CPUs or more, with nothing queued for it. -/
structure StealIdle (w : World) (cpu : ℕ) : Prop where
  hosts : 2 ≤ w.nrCpuIds ∧ w.nrCpuIds ≤ flowMaxCpus
  live : cpu < w.nrCpuIds
  idle : (w.cpuState cpu).runningPid = 0
  own : w.dsq (flowLocalDsq cpu) = []
  node : w.dsq (flowNodeDsq (flowDispatchNode w cpu)) = []
  machine : w.dsq flowMachineDsq = []
  reject : w.dsq flowOverflowDsq = []

theorem StealIdle.cpuLive (h : StealIdle w cpu) : flowCpuLive w cpu = true :=
  flowCpuLive_iff.mpr ⟨h.live, h.live.trans_le h.hosts.2⟩

section OnePass

/-- A pass of an idle CPU with a slot comes to its steal as it started. -/
theorem flowDispatchMoves_stealIdle (h : StealIdle w cpu) (slots : ℕ) :
    flowDispatchMoves k cpu (flowDispatchNode w cpu) (flowDispatchDepths w cpu) true
        (Pass.start w slots)
      = flowDispatchSteal k cpu (flowDispatchDepths w cpu) (Pass.start w slots) := by
  have hd : flowDispatchDepths w cpu = ⟨0, nrQueued w (scxLocalOn cpu), 0, 0⟩ := by
    simp [flowDispatchDepths, nrQueued, h.own, h.node, h.machine]
  have hq : nrQueued w flowOverflowDsq = 0 := by simp [nrQueued, h.reject]
  rw [hd]
  unfold flowDispatchMoves flowDispatchGeneral flowDispatchLocal flowDispatchNodeTier
    flowDispatchMachine flowDispatchReclaim
  simp [flowDispatchTier_of_nonpos, Pass.start, hq]

/-- The steal of an idle CPU walks the queue of the peer behind its cursor that it settles on. -/
theorem flowStealOne_idle (h : StealIdle w cpu) (slots : ℕ) :
    flowStealOne k cpu (w.cpuState cpu).cursor.toNat (Pass.start w slots)
      = match peerPick w cpu (w.cpuState cpu).cursor.toNat flowStealMaxPeers with
        | none => (Pass.start w slots, 0)
        | some off =>
          let dsq := flowLocalDsq (windowPeer w (w.cpuState cpu).cursor.toNat off)
          let r := tierWalk k cpu dsq 0 (w.dsq dsq)
          ((Pass.start w slots).walked dsq cpu r true, if r.hit.isSome then 1 else 0) :=
  flowStealOne_walks (s := Pass.start w slots) h.hosts.2 h.live h.idle rfl

theorem stealReaches_iff : StealReaches w k cpu
    ↔ ∃ off, peerPick w cpu (w.cpuState cpu).cursor.toNat flowStealMaxPeers = some off
      ∧ (tierWalk k cpu (flowLocalDsq (windowPeer w (w.cpuState cpu).cursor.toNat off)) 0
        (w.dsq (flowLocalDsq (windowPeer w (w.cpuState cpu).cursor.toNat off)))).hit ≠ none := by
  unfold StealReaches tierWalk
  simp only [peerPick_eq_some, Nat.sub_zero, ne_eq, Scan.hit_eq_none_iff, not_forall,
    Bool.not_eq_false, exists_prop]

/-- A pass of an idle CPU, as its one steal. -/
theorem flowDispatchMoves_steals (h : StealIdle w cpu) {slots : ℕ} (hslots : slots ≠ 0) :
    flowDispatchMoves k cpu (flowDispatchNode w cpu) (flowDispatchDepths w cpu) true
        (Pass.start w slots)
      = stolen cpu (w.cpuState cpu).cursor.toNat
        (flowStealOne k cpu (w.cpuState cpu).cursor.toNat (Pass.start w slots)) := by
  have hcpu : flowCpu w cpu = some (w.cpuState cpu) :=
    if_neg (not_le.mpr (flowCpuLive_iff.mp h.cpuLive).2)
  have hbacklog : (flowDispatchDepths w cpu).lq0.toNat + (flowDispatchDepths w cpu).nq0.toNat
      + (flowDispatchDepths w cpu).mq0.toNat = 0 := by
    simp [flowDispatchDepths, nrQueued, h.own, h.node, h.machine]
  rw [flowDispatchMoves_stealIdle h]
  unfold flowDispatchSteal
  rw [if_pos ⟨hslots, Nat.succ_pos 7⟩, if_pos hbacklog]
  simp only [Pass.start, Int.toNat_natCast, hcpu]
  rfl

/-- One pass moves a task exactly when its window reaches one, and without a move it leaves the
queues and the cursors as they were. -/
theorem flowDispatchPass_steals (h : StealIdle w cpu) (hslots : k.nrSlots ≠ 0) :
    (StealReaches w k cpu → movesOf (flowDispatchPass w k cpu true).log ≠ [])
      ∧ (¬ StealReaches w k cpu → movesOf (flowDispatchPass w k cpu true).log = []
        ∧ ∃ stats levels, flowDispatch w k cpu
          = { w with cpuStats := stats, perfLast := levels }) := by
  obtain ⟨stats, levels, hworld⟩ := flowDispatch_world (k := k) h.cpuLive hslots
  rw [flowDispatchPass_log h.cpuLive hslots, hworld, flowDispatchMoves_steals h hslots,
    flowStealOne_idle h, stealReaches_iff]
  have hadvance (cursor : ℕ) : flowCursorAdvance w cpu cursor 0 = w := by
    unfold flowCursorAdvance
    split
    · rfl
    · rw [if_neg (by simp)]
  generalize (w.cpuState cpu).cursor.toNat = cursor
  rcases hpick : peerPick w cpu cursor flowStealMaxPeers with _ | off
  · refine ⟨by simp, fun _ => ⟨rfl, stats, levels, ?_⟩⟩
    simp [stolen, Pass.start, hadvance]
  · dsimp only
    generalize hr : tierWalk k cpu (flowLocalDsq (windowPeer w cursor off)) 0
      (w.dsq (flowLocalDsq (windowPeer w cursor off))) = r
    rcases hhit : r.hit with _ | e
    · have hkept : (Pass.start w k.nrSlots).walked (flowLocalDsq (windowPeer w cursor off)) cpu r true
          = _ := walked_kept (by rw [hhit]; rfl)
      refine ⟨?_, fun _ => ⟨?_, stats, levels, ?_⟩⟩
      · rintro ⟨off', hoff', hhit'⟩
        obtain rfl := Option.some.inj hoff'
        rw [hr] at hhit'
        exact absurd hhit hhit'
      · rw [hkept]
        simp [stolen, Pass.start]
      · rw [hkept]
        simp [stolen, Pass.start, hadvance]
    · have hmoved : (Pass.start w k.nrSlots).walked (flowLocalDsq (windowPeer w cursor off)) cpu r true
          = _ := walked_moved hhit
      refine ⟨fun _ => ?_, fun hno => absurd ⟨off, rfl, ?_⟩ hno⟩
      · rw [hmoved]
        simp [stolen, Pass.start]
      · rw [hr, hhit]
        exact Option.some_ne_none e

end OnePass

section Run

/-- Passes of `flow_dispatch` on one CPU, with nothing between them. -/
def dispatchPasses (cpu : ℕ) : Machine World Kernel Visit where
  step w k := flowDispatch w k cpu
  out w k := (flowDispatchPass w k cpu true).log

theorem StealIdle.with_stats (h : StealIdle w cpu) (stats : ℕ → FlowSchedStats)
    (levels : ℕ → UInt32) : StealIdle { w with cpuStats := stats, perfLast := levels } cpu :=
  ⟨h.hosts, h.live, h.idle, h.own, h.node, h.machine, h.reject⟩

theorem dispatchPasses_unreached :
    ∀ {w : World} (ks : List Kernel), StealIdle w cpu →
      (∀ k ∈ ks, k.nrSlots ≠ 0 ∧ ¬ StealReaches w k cpu) →
      movesOf ((dispatchPasses cpu).log w ks) = []
  | _, [], _, _ => rfl
  | w, k :: ks, h, hks => by
    obtain ⟨hslots, hno⟩ := hks k List.mem_cons_self
    obtain ⟨hnone, stats, levels, hw⟩ := (flowDispatchPass_steals h hslots).2 hno
    rw [Machine.log_cons, movesOf_append]
    show movesOf (flowDispatchPass w k cpu true).log
      ++ movesOf ((dispatchPasses cpu).log (flowDispatch w k cpu) ks) = []
    rw [hnone, hw, List.nil_append]
    exact dispatchPasses_unreached ks (h.with_stats stats levels)
      fun k' hk' => hks k' (List.mem_cons_of_mem k hk')

theorem dispatchPasses_reached :
    ∀ {w : World} (ks : List Kernel), StealIdle w cpu → (∀ k ∈ ks, k.nrSlots ≠ 0) →
      (∃ k ∈ ks, StealReaches w k cpu) → movesOf ((dispatchPasses cpu).log w ks) ≠ []
  | _, [], _, _, hreach => by simp at hreach
  | w, k :: ks, h, hks, hreach => by
    have hslots := hks k List.mem_cons_self
    obtain ⟨hyes, hno⟩ := flowDispatchPass_steals h hslots
    rw [Machine.log_cons, movesOf_append]
    show movesOf (flowDispatchPass w k cpu true).log
      ++ movesOf ((dispatchPasses cpu).log (flowDispatch w k cpu) ks) ≠ []
    by_cases hk : StealReaches w k cpu
    · exact List.append_ne_nil_of_left_ne_nil (hyes hk) _
    · obtain ⟨-, stats, levels, hw⟩ := hno hk
      obtain ⟨k', hk', hreach⟩ := hreach
      have htail : k' ∈ ks := (List.mem_cons.mp hk').resolve_left fun he => hk (he ▸ hreach)
      rw [hw]
      exact List.append_ne_nil_of_right_ne_nil _
        (dispatchPasses_reached ks (h.with_stats stats levels)
          (fun x hx => hks x (List.mem_cons_of_mem k hx)) ⟨k', htail, hreach⟩)

/-- Passes on an idle CPU move a task exactly when the window of the first one reaches a task that
the kernel moves in one of them. -/
theorem flowDispatch_steals_iff (w : World) (cpu : ℕ) (h : StealIdle w cpu) (ks : List Kernel)
    (hks : ∀ k ∈ ks, k.nrSlots ≠ 0) :
    movesOf ((dispatchPasses cpu).log w ks) ≠ [] ↔ ∃ k ∈ ks, StealReaches w k cpu := by
  constructor
  · intro hmoves
    by_contra hno
    exact hmoves (dispatchPasses_unreached ks h fun k hk =>
      ⟨hks k hk, fun hreach => hno ⟨k, hk, hreach⟩⟩)
  · exact dispatchPasses_reached ks h hks

/-- A host of 32 CPUs with cursors at zero, where only CPU `peer` has a task queued. -/
def World.loneWork (peer : ℕ) : World :=
  (World.boot 32 1 fun _ => 0).setDsq (flowLocalDsq peer) [⟨1, 5⟩]

/-- The window of CPU 0 ends at CPU 8, and 32 passes in a row scan the same eight peers. -/
theorem flowDispatch_steal_misses :
    StealIdle (World.loneWork 20) 0 ∧ flowCpuLive (World.loneWork 20) 20 = true
      ∧ (World.loneWork 20).dsq (flowLocalDsq 20) = [⟨1, 5⟩]
      ∧ (∀ cpu, ((Kernel.plain 1000).task 1).cpusPtr cpu = true)
      ∧ (∀ dsq p, (Kernel.plain 1000).dsqMove dsq p = true) ∧ (Kernel.plain 1000).nrSlots ≠ 0
      ∧ movesOf ((dispatchPasses 0).log (World.loneWork 20)
        (List.replicate 32 (Kernel.plain 1000))) = [] := by
  have hidle : StealIdle (World.loneWork 20) 0 :=
    ⟨by decide, by decide, rfl, rfl, rfl, rfl, rfl⟩
  have hwindow : ∀ off < flowStealMaxPeers, ¬ PeerWork (World.loneWork 20) 0 0 off := by decide
  refine ⟨hidle, rfl, rfl, fun _ => rfl, fun _ _ => rfl, by decide,
    dispatchPasses_unreached _ hidle fun k hk => ?_⟩
  rw [List.eq_of_mem_replicate hk]
  exact ⟨by decide, fun ⟨off, hpick, _⟩ => hwindow off hpick.1 hpick.2.1⟩

theorem flowDispatch_steals_iff_lone :
    movesOf ((dispatchPasses 0).log (World.loneWork 5) [Kernel.plain 1000]) ≠ []
      ↔ ∃ k ∈ [Kernel.plain 1000], StealReaches (World.loneWork 5) k 0 :=
  flowDispatch_steals_iff (World.loneWork 5) 0
    ⟨by decide, by decide, rfl, rfl, rfl, rfl, rfl⟩ [Kernel.plain 1000] fun k hk => by
      rw [List.mem_singleton.mp hk]
      exact Nat.succ_ne_zero 7

end Run

end ScxFlow
