import ScxFlow.Proofs.FairShare
import ScxFlow.Proofs.Minimum
import ScxFlow.Proofs.Reserve
import ScxFlow.Proofs.Runtime

/-!
# Virtual time under the clock

A ledger moves by a charge, at most `flowWeightBase` for each nanosecond served, or is lifted towards
the minimum of a CPU, which only follows charged ledgers.  So where no task is enqueued while a stop
would still charge it, no ledger and no minimum gets further than that from where the clock started
(`run_virtual`): for the first 2^55 ns they stay below 2^62, where the keys are exact.
-/

namespace ScxFlow

variable {w : World} {k : Kernel} {p : TaskRef}

/-- The minimum of a CPU. -/
def minOf (w : World) (cpu : ℕ) : UInt64 := (w.cpuState cpu).minVruntime

theorem flowCpuMin_le {n : ℕ} (h : ∀ cpu, (minOf w cpu).toNat ≤ n) (cpu : ℕ) :
    (flowCpuMin w cpu).toNat ≤ n := by
  unfold flowCpuMin
  split
  · exact Nat.zero_le n
  · rename_i st hst
    obtain ⟨rfl, -⟩ := flowCpu_eq_some hst
    exact h cpu

/-- A write of a row that keeps its minimum. -/
theorem setCpu_minOf {cpu : ℕ} {st : FlowCpuState} (h : st.minVruntime = minOf w cpu) (c : ℕ) :
    minOf (w.setCpu cpu st) c = minOf w c := by
  unfold minOf World.setCpu
  by_cases hc : c = cpu
  · subst hc
    simpa [minOf] using h
  · simp [hc]

section Pass

variable {s : Pass} {cpu : ℕ}

theorem walked_cpuState (dsq cpu : ℕ) (r : Scan Entry) (moved : Bool) :
    (s.walked dsq cpu r moved).world.cpuState = s.world.cpuState := by
  unfold Pass.walked
  rcases r.hit with _ | e
  · rfl
  · cases moved
    · rfl
    · rfl

theorem flowMoveOneHint_cpuState (k : Kernel) (dsq : ℕ) (cpu queued : ℤ) (s : Pass) :
    (flowMoveOneHint k dsq cpu queued s).1.world.cpuState = s.world.cpuState := by
  unfold flowMoveOneHint
  split_ifs
  · rfl
  · rfl
  · rfl
  · rfl
  · exact walked_cpuState ..

theorem flowDispatchTier_cpuState (k : Kernel) (dsq : ℕ) (cpu queued : ℤ) (s : Pass) :
    (flowDispatchTier k dsq cpu queued s).1.world.cpuState = s.world.cpuState := by
  unfold flowDispatchTier
  split_ifs
  · exact flowMoveOneHint_cpuState ..
  · rfl
  · rfl

theorem tierMoves_cpuState (k : Kernel) (cpu node : ℕ) (d : Depths) (s : Pass) :
    (tierMoves k cpu node d s).world.cpuState = s.world.cpuState :=
  (flowDispatchTier_cpuState k _ cpu d.mq0 _).trans
    ((flowDispatchTier_cpuState k _ cpu d.nq0 _).trans (flowDispatchTier_cpuState k _ cpu d.lq0 s))

theorem flowDispatchReclaim_cpuState (k : Kernel) (cpu : ℕ) (d : Depths) (s : Pass) :
    (flowDispatchReclaim k cpu d s).world.cpuState = s.world.cpuState := by
  have hone (oq : ℤ) (empty : Bool) :
      (flowRejectReclaimOne k cpu oq empty s).1.world.cpuState = s.world.cpuState := by
    by_cases hw : ReclaimWalks cpu oq empty s
    · rw [flowRejectReclaimOne_walks hw]
      split
      · exact walked_cpuState ..
      · exact walked_cpuState ..
    · rw [flowRejectReclaimOne_skips hw]
  unfold flowDispatchReclaim
  split
  · simp only
    split
    · exact hone ..
    · rfl
  · rfl

theorem flowDispatchSteal_minOf (k : Kernel) (cpu : ℕ) (d : Depths) (s : Pass) (c : ℕ) :
    minOf (flowDispatchSteal k cpu d s).world c = minOf s.world c := by
  have hadvance (w : World) (cursor moved : ℕ) :
      minOf (flowCursorAdvance w cpu cursor moved) c = minOf w c := by
    unfold flowCursorAdvance
    split
    · rfl
    · rename_i cst hcst
      split
      · obtain ⟨rfl, -⟩ := flowCpu_eq_some hcst
        refine setCpu_minOf ?_ c
        rfl
      · rfl
  have hsteal (cursor : ℕ) :
      (flowStealOne k cpu cursor s).1.world.cpuState = s.world.cpuState := by
    rcases flowStealOne_cases k cpu cursor s with hst | ⟨peer, -, -, hst⟩
    · rw [hst]
    · rw [hst]
      exact flowMoveOneHint_cpuState ..
  unfold flowDispatchSteal
  split
  · simp only
    split
    · exact (hadvance ..).trans (congrArg FlowCpuState.minVruntime (congrFun (hsteal _) c))
    · rfl
  · rfl

/-- A pass keeps the minima. -/
theorem flowDispatch_minOf (w : World) (k : Kernel) (cpu : ℤ) (c : ℕ) :
    minOf (flowDispatch w k cpu) c = minOf w c := by
  rcases flowDispatch_cases w k cpu with ⟨-, stats, levels, hw⟩ | ⟨n, rfl, hl, hslots⟩
  · rw [hw]
    rfl
  · obtain ⟨stats, levels, hw⟩ := flowDispatch_world hl hslots
    have htiers := tierMoves_cpuState k n (flowDispatchNode w n) (flowDispatchDepths w n)
      (Pass.start w k.nrSlots)
    rw [hw]
    unfold minOf
    dsimp only
    rcases flowDispatchMoves_cases (k := k) (w := w) (flowDispatchNode w n)
      (flowDispatchDepths w n) (flowCpuLive_iff.mp hl).2 true with h | h
    · rw [h, htiers]
      rfl
    · rw [h]
      refine (flowDispatchSteal_minOf ..).trans ?_
      unfold minOf
      rw [flowDispatchReclaim_cpuState, htiers]
      rfl

end Pass

theorem perform_minOf_le {n : ℕ} {e : Effect} (h : ∀ cpu, (minOf w cpu).toNat ≤ n)
    (he : ∀ cpu v, e = .minAdvance cpu v → v.toNat ≤ n) (c : ℕ) :
    (minOf (w.perform k p e) c).toNat ≤ n := by
  rcases hfold : e.isFold with _ | _
  · unfold minOf
    rw [perform_row hfold]
    exact h c
  · cases e with
    | minAdvance cpu v =>
      show (minOf (flowMinAdvance w cpu v) c).toNat ≤ n
      unfold flowMinAdvance
      split
      · exact h c
      split
      · exact h c
      split
      · exact h c
      simp only
      split
      · exact h c
      split
      · exact h c
      · by_cases hc : c = cpu.toNat
        · subst hc
          simpa [minOf, World.setCpu] using he cpu v rfl
        · simpa [minOf, World.setCpu, hc] using h c
    | _ => cases hfold

theorem run_minOf_le {n : ℕ} : ∀ {es : List Effect} {w : World},
    (∀ cpu, (minOf w cpu).toNat ≤ n) → (∀ cpu v, .minAdvance cpu v ∈ es → v.toNat ≤ n) →
      ∀ c, (minOf (w.run k p es) c).toNat ≤ n
  | [], _, h, _, c => h c
  | e :: es, w, h, he, c => by
    rw [run_cons]
    exact run_minOf_le (perform_minOf_le h fun cpu v hv => he cpu v (hv ▸ List.mem_cons_self))
      (fun cpu v hv => he cpu v (List.mem_cons_of_mem e hv)) c

section OpLedger

theorem flowPinnedWait_vruntime (t : FlowTaskCtx) (pc : ℤ) (enqFlags : UInt64) :
    ∃ t', (flowPinnedWait w k p t pc enqFlags).ctx = some t' ∧ t'.vruntime = t.vruntime := by
  have hbase : (flowPinnedCtx t k.now).vruntime = t.vruntime := by
    unfold flowPinnedCtx
    simp only
    split
    · rw [flowCountMiss_eq]
    · rfl
  obtain ⟨hctx, -⟩ := flowPinnedFair_fair (flowPinnedCtx t k.now) k.now enqFlags
    (flowPinnedMissed t k.now)
  have hjoin (t : FlowTaskCtx) (out : FlowOpenOut) :
      ∃ t', (flowPinnedJoin w k p t out pc enqFlags).ctx = some t' ∧ t'.vruntime = t.vruntime := by
    unfold flowPinnedJoin
    simp only
    split
    · exact ⟨_, rfl, rfl⟩
    split
    · exact ⟨_, rfl, rfl⟩
    · exact ⟨_, rfl, rfl⟩
  obtain ⟨t', ht', hv⟩ := hjoin (flowPinnedFair (openWait (flowPinnedCtx t k.now) k.now enqFlags)
    (flowPinnedMissed t k.now)).1 (flowPinnedFair (openWait (flowPinnedCtx t k.now) k.now enqFlags)
    (flowPinnedMissed t k.now)).2
  exact ⟨t', ht', by rw [hv, hctx]; exact hbase⟩

/-- An enqueue lifts a ledger no further than a minimum. -/
theorem flowEnqueue_vruntime_le {n : ℕ} (enqFlags : UInt64) (hrow : ∀ cpu, (minOf w cpu).toNat ≤ n)
    (h : ∀ t, w.taskCtx p = some t → t.vruntime.toNat ≤ n) :
    ∀ t, (flowEnqueue w k p enqFlags).ctx = some t → t.vruntime.toNat ≤ n := by
  have hget {t : FlowTaskCtx} (hg : flowGet w k p = some t) : t.vruntime.toNat ≤ n := by
    rcases flowGet_some hg with hs | ⟨-, rfl⟩
    · exact h t hs
    · exact Nat.zero_le n
  have hclamp {t : FlowTaskCtx} (hv : t.vruntime.toNat ≤ n) (cpu : ℕ) :
      (flowClampToMin w t cpu).vruntime.toNat ≤ n := by
    have hmin := flowCpuMin_le hrow cpu
    rw [flowClampToMin_toNat]
    omega
  rcases hok : flowCpuOk w (k.task p) (enqueueTarget w k p) with _ | _
  · -- without a target only the pinned path builds a key, and it lifts nothing
    have hpinned {t : FlowTaskCtx} (hv : t.vruntime.toNat ≤ n) :
        ∀ t', (flowEnqueuePinned w k p t enqFlags).ctx = some t' → t'.vruntime.toNat ≤ n := by
      unfold flowEnqueuePinned
      simp only
      have htgt : flowPickTarget w k p (k.task p).selectedCpu = enqueueTarget w k p := rfl
      rw [htgt, hok, if_neg fun hc => Bool.false_ne_true hc.2]
      intro t' ht'
      obtain ⟨t'', hctx, hsame⟩ := flowPinnedWait_vruntime (w := w) (k := k) (p := p)
        { t with
          hintUs := (flowEnqueueHint w k p t enqFlags).1.1
          hintW := (flowEnqueueHint w k p t enqFlags).1.2 } (enqueueTarget w k p) enqFlags
      obtain rfl := Option.some.inj (hctx.symm.trans ht')
      rw [hsame]
      exact hv
    unfold flowEnqueue
    simp only
    split
    · exact h
    split
    · rw [flowEnqueueGateMiss_ctx]
      intro t' ht'
      obtain ⟨t, ht, rfl⟩ := Option.map_eq_some_iff.mp ht'
      exact h t ht
    split
    · rw [flowEnqueueNoState_ctx]
      exact fun t ht => nomatch ht
    · rename_i t hg
      have hstored := hget hg
      split
      · exact hpinned hstored
      · rw [show flowCpuOk w (k.task p) (flowPickTarget w k p (k.task p).selectedCpu) = false from
          hok]
        intro t' ht'
        obtain rfl := Option.some.inj ht'
        exact hstored
  · have hleaves := flowEnqueue_leaves w k p enqFlags
    generalize (flowEnqueue w k p enqFlags).ctx = ctx at hleaves
    intro t' ht'
    cases hleaves with
    | same => exact h t' ht'
    | stamped ht =>
      obtain rfl := Option.some.inj ht'
      have hstored := h _ ht
      exact hstored
    | homeless hg =>
      obtain rfl := Option.some.inj ht'
      have hstored := hget hg
      exact hstored
    | waits hg hstores =>
      obtain rfl := Option.some.inj ht'
      rw [hstores.vruntime hok]
      exact hclamp (hget hg) _

theorem flowLedgerAdvance_le (v delta : UInt64) {weight : UInt32} (hw : ShareIn weight)
    (hd : delta.toNat ≤ 5000000000) :
    (flowLedgerAdvance v delta weight).toNat ≤ v.toNat + 128 * delta.toNat := by
  unfold flowLedgerAdvance
  rw [flowSatAdd_toNat]
  by_cases h0 : delta = 0
  · subst h0
    have hnone : flowScaledDelta 0 weight = 0 := rfl
    rw [hnone]
    exact min_le_left _ _
  · have hpos := toNat_pos_iff.mpr h0
    have hdiv := Nat.div_le_self (128 * delta.toNat) weight.toNat
    rw [flowScaledDelta_toNat h0 (by omega) hw]
    omega

theorem flowStopCharged_vruntime_le (t : FlowTaskCtx) (now start : UInt64) :
    (flowStopCharged t (flowStopDelta now start)).vruntime.toNat
      ≤ t.vruntime.toNat + 128 * (flowStopDelta now start).toNat := by
  have hcharge := flowLedgerAdvance_le t.vruntime (flowStopDelta now start)
    (flowTaskEffectiveWeight_in t.weight t.hintW) (flowStopDelta_le now start)
  unfold flowStopCharged
  split
  · rw [flowStopCharge_vruntime]
    exact hcharge
  · exact Nat.le_add_right _ _

theorem StopCtx.vruntime_le {t t' : FlowTaskCtx} {now start : UInt64}
    (h : StopCtx { t with runAt := 0 } t' (flowStopDelta now start)) :
    t'.vruntime.toNat ≤ t.vruntime.toNat + 128 * (flowStopDelta now start).toNat := by
  have hcharged := flowStopCharged_vruntime_le { t with runAt := 0 } now start
  rw [h.vruntime]
  unfold flowStopCharged at hcharged
  split_ifs at hcharged ⊢
  · exact hcharged
  · exact hcharged

/-- A stop folds the ledger it charged. -/
theorem flowStopping_folds {n : ℕ} {runnable : Bool} {cpu : ℤ} {v : UInt64}
    (h : ∀ t, w.taskCtx p = some t →
      t.vruntime.toNat + 128 * (flowStopDelta k.now t.runAt).toNat ≤ n)
    (hv : .minAdvance cpu v ∈ (flowStopping w k p runnable).eff) : v.toNat ≤ n := by
  rcases flowStopping_cases w k p runnable with ⟨-, -, heq⟩ | ⟨-, -, -, heq⟩ |
    ⟨t, t', es, -, -, ht, -, heq, -, hes⟩
  · rw [heq] at hv
    simp at hv
  · rw [heq] at hv
    simp at hv
  · have hledger := flowStopCharged_vruntime_le { t with runAt := 0 } k.now t.runAt
    have hfold : v = (flowStopCharged { t with runAt := 0 }
        (flowStopDelta k.now t.runAt)).vruntime := by
      rw [heq] at hv
      obtain ⟨rest, rfl, hquiet⟩ := hes.split
      rcases List.mem_append.mp (List.mem_of_ne_of_mem (by simp) hv) with hmem | hmem
      · unfold chargeEffects at hmem
        split at hmem
        · obtain ⟨-, rfl⟩ : cpu = (k.task p).taskCpu ∧ v = _ := by simpa using hmem
          rfl
        · cases hmem
      · cases hquiet _ hmem
    rw [hfold]
    exact hledger.trans (h t ht)

end OpLedger

section Call

variable {n : ℕ}

/-- A call writes the minima in the fold of a stop, or not at all. -/
theorem step_folds (w : World) (c : Call) :
    (∀ cpu, minOf (w.step c) cpu = minOf w cpu)
      ∨ ∃ p runnable w', (∀ cpu, minOf w' cpu = minOf w cpu)
        ∧ w.step c = w'.run c.view p (flowStopping w c.view p runnable).eff := by
  obtain ⟨k, op⟩ := c
  have hcommit {q : TaskRef} {o : OpOut} (h : op.onTask w k = some (q, o))
      (he : ∀ e ∈ o.eff, e.isFold = false) (cpu : ℕ) :
      minOf (w.step ⟨k, op⟩) cpu = minOf w cpu := by
    rw [World.step_onTask h]
    exact run_row (w := { w with taskCtx := Function.update w.taskCtx q o.ctx }) he cpu
  have hbracket {q : TaskRef} {o : OpOut} (h : op.onTask w k = some (q, o))
      (henqueue : ∀ p enqFlags, op ≠ .enqueue p enqFlags)
      (hstopping : ∀ p runnable, op ≠ .stopping p runnable) (cpu : ℕ) :
      minOf (w.step ⟨k, op⟩) cpu = minOf w cpu := by
    refine hcommit h (fun e he => ?_) cpu
    have hb := bracket_effects h henqueue hstopping e he
    cases e with
    | minAdvance cpu v => cases hb
    | _ => rfl
  have hcgroup (hop : op.isCgroup = true) (cpu : ℕ) :
      minOf (w.step ⟨k, op⟩) cpu = minOf w cpu := by
    obtain ⟨stor, cache, heq⟩ := step_cgroup w k hop
    rw [heq]
    rfl
  cases op with
  | enqueue q enqFlags =>
    refine Or.inl (hcommit rfl fun e he => ?_)
    have heff := flowEnqueue_effects w k q enqFlags e he
    cases e with
    | minAdvance cpu v => exact heff.elim (fun h => nomatch h) fun h => nomatch h
    | _ => rfl
  | stopping q runnable =>
    exact Or.inr ⟨q, runnable,
      { w with taskCtx := Function.update w.taskCtx q (flowStopping w k q runnable).ctx },
      fun _ => rfl, World.step_onTask rfl⟩
  | running q => exact Or.inl (hbracket rfl (fun _ _ h => nomatch h) fun _ _ h => nomatch h)
  | enable q => exact Or.inl (hbracket rfl (fun _ _ h => nomatch h) fun _ _ h => nomatch h)
  | disable q => exact Or.inl (hbracket rfl (fun _ _ h => nomatch h) fun _ _ h => nomatch h)
  | exitTask q => exact Or.inl (hbracket rfl (fun _ _ h => nomatch h) fun _ _ h => nomatch h)
  | cpuRelease d =>
    refine Or.inl fun cpu => ?_
    show minOf (flowCpuRelease w k d) cpu = minOf w cpu
    unfold flowCpuRelease
    split
    · exact perform_row (e := .count .gateRejects 1) (p := 0) rfl cpu
    · exact perform_row (e := .clearRunning _) (k := k) (p := 0) rfl cpu
  | dispatch d => exact Or.inl (flowDispatch_minOf w k d)
  | setWeight q weight =>
    refine Or.inl fun cpu => ?_
    show minOf (flowSetWeight w q weight) cpu = minOf w cpu
    rw [flowSetWeight_eq]
    rfl
  | cgroupInit cgrp => exact Or.inl (hcgroup rfl)
  | cgroupExit cgrp => exact Or.inl (hcgroup rfl)
  | cgroupMove q dst => exact Or.inl (hcgroup rfl)
  | cgroupSetWeight cgrp weight => exact Or.inl (hcgroup rfl)

theorem step_rows {c : Call} (hrow : ∀ cpu, (minOf w cpu).toNat ≤ n)
    (htask : ∀ q t, w.taskCtx q = some t →
      t.vruntime.toNat + 128 * (flowStopDelta c.view.now t.runAt).toNat ≤ n) (cpu : ℕ) :
    (minOf (w.step c) cpu).toNat ≤ n := by
  rcases step_folds w c with h | ⟨p, runnable, w', hrows, h⟩
  · rw [h]
    exact hrow cpu
  · rw [h]
    exact run_minOf_le (fun c => (hrows c).symm ▸ hrow c)
      (fun _ _ hv => flowStopping_folds (htask p) hv) cpu

theorem step_ledgers {c : Call} (hrow : ∀ cpu, (minOf w cpu).toNat ≤ n)
    (htask : ∀ q t, w.taskCtx q = some t →
      t.vruntime.toNat + 128 * (flowStopDelta c.view.now t.runAt).toNat ≤ n)
    (hrest : ∀ q enqFlags, c.op = .enqueue q enqFlags →
      flowStopDelta c.view.now (runAtOf (w.taskCtx q)) = 0) (q : TaskRef) :
    ∀ t, (w.step c).taskCtx q = some t →
      t.vruntime.toNat + 128 * (flowStopDelta c.view.now t.runAt).toNat ≤ n := by
  obtain ⟨k, op⟩ := c
  have hbare (t : FlowTaskCtx) (ht : w.taskCtx q = some t) : t.vruntime.toNat ≤ n :=
    (Nat.le_add_right _ _).trans (htask q t ht)
  refine step_storage (P := fun c => ∀ t, c = some t →
    t.vruntime.toNat + 128 * (flowStopDelta k.now t.runAt).toNat ≤ n) ⟨k, op⟩ (htask q)
    (fun enqFlags hop t ht => ?_) (fun _ => ?_) (fun runnable _ => ?_) (fun _ => ?_)
    fun weight _ => ?_
  · have hrun := flowEnqueue_runAt w k q enqFlags
    rw [ht] at hrun
    have hidle : flowStopDelta k.now t.runAt = 0 :=
      (congrArg (flowStopDelta k.now) hrun).trans (hrest q enqFlags hop)
    rw [hidle]
    exact flowEnqueue_vruntime_le enqFlags hrow hbare t ht
  · rcases hgate : flowEntryOk w (k.task q) (k.task q).taskCpu 0 with _ | _
    · rw [flowRunning_of_closed hgate]
      exact htask q
    · rcases flowRunning_of_open hgate with ⟨t, ht, -, heq⟩ | ⟨-, heq⟩
      · rw [heq]
        intro t' ht'
        obtain rfl := Option.some.inj ht'
        show t.vruntime.toNat + 128 * (flowStopDelta k.now (flowRunStamp k.now)).toNat ≤ n
        rw [flowStopDelta_stamp]
        exact hbare t ht
      · rw [heq]
        exact htask q
  · rcases flowStopping_cases w k q runnable with ⟨-, -, heq⟩ | ⟨-, -, -, heq⟩ |
      ⟨t, t', es, -, -, ht, -, heq, hstop, -⟩
    · rw [heq]
      exact htask q
    · rw [heq]
      exact htask q
    · rw [heq]
      intro t'' ht''
      obtain rfl := Option.some.inj ht''
      rw [hstop.runAt, flowStopDelta_zero]
      exact hstop.vruntime_le.trans (htask q t ht)
  · rcases flowEnable_ctx w k q with heq | heq
    · rw [heq]
      exact htask q
    · rw [heq]
      intro t' ht'
      obtain rfl := Option.some.inj ht'
      show 0 + 128 * (flowStopDelta k.now 0).toNat ≤ n
      rw [flowStopDelta_zero]
      exact Nat.zero_le n
  · rw [flowSetWeight_taskCtx, Function.update_self]
    intro t' ht'
    obtain ⟨t, ht, rfl⟩ := Option.map_eq_some_iff.mp ht'
    exact htask q t ht

end Call

section RunClock

/-- Each ledger, with what a stop would charge to it, and each minimum is within the base weight for
each nanosecond since `start`. -/
structure Behind (start : UInt64) (s : RunState) : Prop where
  begun : start ≤ s.clock
  task : ∀ p t, s.world.taskCtx p = some t →
    t.vruntime.toNat + 128 * (flowStopDelta s.clock t.runAt).toNat
      ≤ 128 * (s.clock.toNat - start.toNat)
  row : ∀ cpu, (minOf s.world cpu).toNat ≤ 128 * (s.clock.toNat - start.toNat)

/-- A task is enqueued only where a stop would charge it nothing. -/
def Turn.rested (s : RunState) : Turn → Bool
  | .call ⟨k, .enqueue p _⟩ => decide (flowStopDelta k.now (runAtOf (s.world.taskCtx p)) = 0)
  | _ => true

/-- A clock that does not run back, and a kernel that stops a task before it enqueues it. -/
def Calm (s : RunState) (t : Turn) : Prop := Ticks s t ∧ t.rested s = true

instance (s : RunState) (t : Turn) : Decidable (Calm s t) :=
  inferInstanceAs (Decidable (_ ∧ _))

theorem select_minOf (w : World) (k : Kernel) (es : List SelectEffect) (cpu : ℕ) :
    minOf (w.select k es) cpu = minOf w cpu :=
  List.foldl_observe (fun w => minOf w cpu) w fun w e _ => by
    split
    · refine setCpu_minOf ?_ cpu
      rfl
    · exact perform_row (e := .count .gateRejects 1) (p := 0) rfl cpu

theorem seedTopoWith_minOf (w : World) (rows : List TopoRow) (cpu : ℕ) :
    minOf (seedTopoWith w rows) cpu = minOf w cpu :=
  List.foldl_observe (fun w => minOf w cpu) w fun w row _ => by
    split
    · rfl
    · rfl

/-- The bounds hold of the state before a turn at the clock of the turn already. -/
theorem Behind.later {start : UInt64} {s : RunState} {t : Turn} (ht : Ticks s t)
    (h : Behind start s) : Behind start ⟨s.world, t.clock s.clock⟩ := by
  have hle : s.clock.toNat ≤ (t.clock s.clock).toNat := UInt64.le_iff_toNat_le.mp ht
  have hbegun : start.toNat ≤ s.clock.toNat := UInt64.le_iff_toNat_le.mp h.begun
  refine ⟨UInt64.le_trans h.begun ht, fun q t' ht' => ?_, fun cpu => (h.row cpu).trans ?_⟩
  · have hnow := h.task q t' ht'
    have hlater := flowStopDelta_le_add ht t'.runAt
    show t'.vruntime.toNat + 128 * (flowStopDelta (t.clock s.clock) t'.runAt).toNat
      ≤ 128 * ((t.clock s.clock).toNat - start.toNat)
    omega
  · show _ ≤ 128 * ((t.clock s.clock).toNat - start.toNat)
    omega

theorem Behind.step {start : UInt64} {s : RunState} {t : Turn} (ht : Calm s t)
    (h : Behind start s) : Behind start (timed.step s t) := by
  obtain ⟨hticks, hrest⟩ := ht
  obtain ⟨hbegun', htask, hrow⟩ := h.later hticks
  have hkept (hctx : (core.step s.world t).taskCtx = s.world.taskCtx)
      (hmin : ∀ cpu, minOf (core.step s.world t) cpu = minOf s.world cpu) :
      Behind start (timed.step s t) := by
    refine ⟨hbegun', ?_, fun cpu => ?_⟩
    · show ∀ p t', (core.step s.world t).taskCtx p = some t' → _
      rw [hctx]
      exact htask
    · show (minOf (core.step s.world t) cpu).toNat ≤ _
      rw [hmin]
      exact hrow cpu
  cases t with
  | call c =>
    refine ⟨hbegun', step_ledgers hrow htask ?_, step_rows hrow htask⟩
    obtain ⟨k, op⟩ := c
    rintro q enqFlags rfl
    exact of_decide_eq_true hrest
  | select k cap q prevCpu => exact hkept (select_taskCtx _ k _) (select_minOf _ k _)
  | seed rows => exact hkept (seedTopoWith_taskCtx _ rows) (seedTopoWith_minOf _ rows)
  | pick cpu => exact hkept rfl fun _ => rfl
  | dequeue q dsq => exact hkept rfl fun _ => rfl

theorem Behind.boot (nrCpuIds nrNodeIds : ℕ) (topoNode : ℕ → ℕ) (start : UInt64) :
    Behind start ⟨World.boot nrCpuIds nrNodeIds topoNode, start⟩ :=
  ⟨UInt64.le_refl _, fun _ _ ht => (Option.some_ne_none _ ht.symm).elim, fun _ => Nat.zero_le _⟩

/-- From boot on, over every run in which the kernel stops a task before it enqueues it, no ledger and
no minimum is past the base weight for each nanosecond that passed. -/
theorem run_virtual (nrCpuIds nrNodeIds : ℕ) (topoNode : ℕ → ℕ) (start : UInt64) (ts : List Turn)
    (h : timed.Along Calm ⟨World.boot nrCpuIds nrNodeIds topoNode, start⟩ ts) :
    let s := timed.exec ⟨World.boot nrCpuIds nrNodeIds topoNode, start⟩ ts
    (∀ p t, s.world.taskCtx p = some t →
        t.vruntime.toNat ≤ 128 * (s.clock.toNat - start.toNat))
      ∧ ∀ cpu, (minOf s.world cpu).toNat ≤ 128 * (s.clock.toNat - start.toNat) := by
  have hrun := Machine.exec_along (fun _ _ ht hs => hs.step ht) h
    (Behind.boot nrCpuIds nrNodeIds topoNode start)
  exact ⟨fun p t ht => (Nat.le_add_right _ _).trans (hrun.task p t ht), hrun.row⟩

theorem run_virtual_reclaimsOne : let s := timed.exec ⟨World.boot 2 1 fun _ => 0, 1000⟩ reclaimsOne
    (∀ p t, s.world.taskCtx p = some t → t.vruntime.toNat ≤ 128 * (s.clock.toNat - 1000))
      ∧ ∀ cpu, (minOf s.world cpu).toNat ≤ 128 * (s.clock.toNat - 1000) :=
  run_virtual 2 1 (fun _ => 0) 1000 reclaimsOne (by decide +kernel)

end RunClock

end ScxFlow
