import ScxFlow.Proofs.EnqueueLedger
import ScxFlow.Proofs.PassContract
import ScxFlow.Proofs.Segment

/-!
# The RED guarantee over whole runs

Slices stay within the quantum and hints come from rows, so along every run each fresh deadline
leaves room for the price of its task.  No enqueue of a run rejects by RED, and the reject queue holds
only what the gate or a missing target sent there.
-/

namespace ScxFlow

variable {w : World} {k : Kernel} {p : TaskRef}

section OtherOps

/-- An effect that neither inserts nor counts a RED reject. -/
def Effect.isCalm (e : Effect) : Prop := e.insertedTo = none ∧ e.counts .redRejects = false

theorem EndEff.isCalm {ts : TaskStruct} {e : Effect} (h : EndEff ts e) : e.isCalm := by
  cases h <;> exact ⟨rfl, rfl⟩

theorem flowRunning_isCalm (w : World) (k : Kernel) (p : TaskRef) :
    ∀ e ∈ (flowRunning w k p).eff, e.isCalm := by
  have ho : ∀ e ∈ ownerEffect w (k.task p), e.isCalm := by
    intro e he
    obtain ⟨cpu, rfl⟩ := exists_of_mem_ownerEffect he
    exact ⟨rfl, rfl⟩
  rcases hg : flowEntryOk w (k.task p) (k.task p).taskCpu 0 with _ | _
  · rw [flowRunning_of_closed hg]
    simp [Effect.isCalm, Effect.insertedTo, Effect.counts]
  · rcases flowRunning_of_open hg with ⟨t, -, -, heq⟩ | ⟨-, heq⟩
    · rw [heq]
      intro e he
      rcases List.mem_cons.mp he with rfl | he
      · exact ⟨rfl, rfl⟩
      · exact ho e he
    · rw [heq]
      exact ho

theorem flowStopping_isCalm (w : World) (k : Kernel) (p : TaskRef) (runnable : Bool) :
    ∀ e ∈ (flowStopping w k p runnable).eff, e.isCalm := by
  intro e he
  rcases flowStopping_ends w k p runnable e he with ⟨start, delta, rfl⟩ | he
  · exact ⟨rfl, rfl⟩
  · exact he.isCalm

end OtherOps

section Hierarchy

theorem flowCgroupInit_cases (w : World) (k : Kernel) (cgrp : Option Cgroup) :
    (flowCgroupInit w k cgrp).toOption.getD w = w
      ∨ ∃ id, (flowCgroupInit w k cgrp).toOption.getD w
        = w.hintUpdate k id ⟨0, flowWeightBase.toUInt32⟩ := by
  unfold flowCgroupInit
  split
  · exact Or.inl rfl
  · simp only
    split
    · exact Or.inl rfl
    · exact Or.inr ⟨_, rfl⟩

theorem flowCgroupExit_cases (w : World) (cgrp : Option Cgroup) :
    flowCgroupExit w cgrp = w
      ∨ ∃ id, flowCgroupExit w cgrp
        = { w with hintStor := Function.update w.hintStor id none } := by
  unfold flowCgroupExit
  split
  · exact Or.inl rfl
  · simp only
    split
    · exact Or.inl rfl
    · exact Or.inr ⟨_, rfl⟩

theorem flowCgroupSetWeight_cases (w : World) (k : Kernel) (cgrp : Option Cgroup)
    (weight : UInt32) : flowCgroupSetWeight w k cgrp weight = w
      ∨ ∃ id, flowCgroupSetWeight w k cgrp weight = w.hintUpdate k id (flowShareBand weight) := by
  unfold flowCgroupSetWeight
  split
  · exact Or.inl rfl
  · simp only
    split
    · exact Or.inl rfl
    · exact Or.inr ⟨_, rfl⟩

theorem flowCgroupMove_eq (w : World) (k : Kernel) (p : TaskRef) (dst : Option Cgroup) :
    flowCgroupMove w k p dst = { w with cgrpCache := (flowCgroupMove w k p dst).cgrpCache } := by
  unfold flowCgroupMove
  split
  · rfl
  · exact flowCgrpCacheInvalidate_eq w _

/-- The ops on the hierarchy. -/
def Op.isCgroup : Op → Bool
  | .cgroupInit _ | .cgroupExit _ | .cgroupMove _ _ | .cgroupSetWeight _ _ => true
  | _ => false

theorem hintUpdate_eq (w : World) (k : Kernel) (id : UInt64) (row : FlowHint) :
    w.hintUpdate k id row = { w with hintStor := (w.hintUpdate k id row).hintStor } := by
  unfold World.hintUpdate
  split
  · rfl
  · rfl

/-- They write the hints and their cache only. -/
theorem step_cgroup (w : World) (k : Kernel) {op : Op} (h : op.isCgroup = true) :
    ∃ stor cache, w.step ⟨k, op⟩ = { w with hintStor := stor, cgrpCache := cache } := by
  cases op with
  | cgroupInit cgrp =>
    show ∃ stor cache, (flowCgroupInit w k cgrp).toOption.getD w = _
    rcases flowCgroupInit_cases w k cgrp with heq | ⟨id, heq⟩
    · rw [heq]
      exact ⟨_, _, rfl⟩
    · rw [heq, hintUpdate_eq]
      exact ⟨_, _, rfl⟩
  | cgroupExit cgrp =>
    show ∃ stor cache, flowCgroupExit w cgrp = _
    rcases flowCgroupExit_cases w cgrp with heq | ⟨id, heq⟩
    · rw [heq]
      exact ⟨_, _, rfl⟩
    · rw [heq]
      exact ⟨_, _, rfl⟩
  | cgroupMove p dst =>
    show ∃ stor cache, flowCgroupMove w k p dst = _
    rw [flowCgroupMove_eq]
    exact ⟨_, _, rfl⟩
  | cgroupSetWeight cgrp weight =>
    show ∃ stor cache, flowCgroupSetWeight w k cgrp weight = _
    rcases flowCgroupSetWeight_cases w k cgrp weight with heq | ⟨id, heq⟩
    · rw [heq]
      exact ⟨_, _, rfl⟩
    · rw [heq, hintUpdate_eq]
      exact ⟨_, _, rfl⟩
  | _ => cases h

end Hierarchy

section Ranges

/-- The ranges the guarantee needs, in the whole state. -/
structure RangesOk (w : World) : Prop where
  rows : RowsOk w
  ctxs : ∀ p, CtxOk (w.taskCtx p)

theorem RangesOk.commit (h : RangesOk w) (k : Kernel) {o : OpOut} (ho : CtxOk o.ctx) :
    RangesOk (w.commit k p o) := by
  refine ⟨?_, fun q => ?_⟩
  · unfold RowsOk
    rw [commit_hintStor]
    exact h.rows
  · rw [commit_taskCtx]
    by_cases hq : q = p
    · subst hq
      simpa using ho
    · rw [Function.update_of_ne hq]
      exact h.ctxs q

theorem RangesOk.of_eq {w' : World} (h : RangesOk w) (ht : w'.taskCtx = w.taskCtx)
    (hh : w'.hintStor = w.hintStor) : RangesOk w' := by
  refine ⟨?_, ?_⟩
  · unfold RowsOk
    rw [hh]
    exact h.rows
  · rw [ht]
    exact h.ctxs

theorem RowsOk.update (h : RowsOk w) (id : UInt64) {row : Option FlowHint}
    (hr : ∀ r, row = some r → HintOk r.periodUs) :
    RowsOk { w with hintStor := Function.update w.hintStor id row } := by
  intro id' r hrow
  by_cases hid : id' = id
  · subst hid
    exact hr r (by simpa using hrow)
  · exact h id' r (by simpa [hid] using hrow)

theorem flowShareBand_ok (weight : UInt32) : HintOk (flowShareBand weight).periodUs := by
  unfold flowShareBand
  simp only
  split_ifs
  all_goals exact Or.inr (by decide)

theorem RangesOk.hintUpdate (h : RangesOk w) (k : Kernel) (id : UInt64) {row : FlowHint}
    (hr : HintOk row.periodUs) : RangesOk (w.hintUpdate k id row) := by
  unfold World.hintUpdate
  split
  · exact ⟨h.rows.update id fun r hrow => by rw [← Option.some.inj hrow]; exact hr, h.ctxs⟩
  · exact h

theorem RangesOk.cgroupInit (h : RangesOk w) (k : Kernel) (cgrp : Option Cgroup) :
    RangesOk ((flowCgroupInit w k cgrp).toOption.getD w) := by
  rcases flowCgroupInit_cases w k cgrp with heq | ⟨id, heq⟩
  · rwa [heq]
  · rw [heq]
    exact h.hintUpdate k id (Or.inl rfl)

theorem RangesOk.cgroupExit (h : RangesOk w) (cgrp : Option Cgroup) :
    RangesOk (flowCgroupExit w cgrp) := by
  rcases flowCgroupExit_cases w cgrp with heq | ⟨id, heq⟩
  · rwa [heq]
  · rw [heq]
    exact ⟨h.rows.update id (by simp), h.ctxs⟩

theorem RangesOk.cgroupSetWeight (h : RangesOk w) (k : Kernel) (cgrp : Option Cgroup)
    (weight : UInt32) : RangesOk (flowCgroupSetWeight w k cgrp weight) := by
  rcases flowCgroupSetWeight_cases w k cgrp weight with heq | ⟨id, heq⟩
  · rwa [heq]
  · rw [heq]
    exact h.hintUpdate k id (flowShareBand_ok weight)

theorem RangesOk.setWeight (h : RangesOk w) (p : TaskRef) (weight : UInt32) :
    RangesOk (flowSetWeight w p weight) := by
  refine ⟨by rw [flowSetWeight_eq]; exact h.rows, fun q => ?_⟩
  rw [flowSetWeight_taskCtx]
  by_cases hq : q = p
  · subst hq
    intro t' ht'
    rw [Function.update_self] at ht'
    obtain ⟨t, ht, rfl⟩ := Option.map_eq_some_iff.mp ht'
    exact ⟨(h.ctxs q t ht).hint, (h.ctxs q t ht).slice⟩
  · simpa [hq] using h.ctxs q

theorem flowDispatch_frame (w : World) (k : Kernel) (cpu : ℤ) :
    (flowDispatch w k cpu).taskCtx = w.taskCtx ∧ (flowDispatch w k cpu).hintStor = w.hintStor
      ∧ (∀ r, (flowDispatch w k cpu).cpuStats r .redRejects = w.cpuStats r .redRejects)
      ∧ ∀ e ∈ (flowDispatch w k cpu).dsq flowOverflowDsq, e ∈ w.dsq flowOverflowDsq := by
  unfold flowDispatch
  by_cases h0 : cpu < 0
  · simp [flowDispatchPass, h0, Pass.start]
  · obtain ⟨c, rfl⟩ : ∃ c : ℕ, cpu = c := ⟨cpu.toNat, by omega⟩
    rcases hl : flowCpuLive w c with _ | _
    · have hp : flowDispatchPass w k c true = Pass.start (flowCount w k .gateRejects 1) 0 := by
        simp [flowDispatchPass, hl]
      rw [hp]
      have hs := perform_stats w k 0 (e := .count .gateRejects 1) (c := .redRejects) rfl
      refine ⟨?_, ?_, hs, ?_⟩
      · simp only [Pass.start]
        rw [flowCount_eq]
      · simp only [Pass.start]
        rw [flowCount_eq]
      · simp only [Pass.start]
        rw [flowCount_eq]
        exact fun e he => he
    · obtain ⟨s, ⟨Q, hok⟩, -, -, -, -, -, hacc⟩ := flowDispatchPass_live (k := k) hl true
      refine ⟨hacc.taskCtx.trans hok.keeps.taskCtx, hacc.hintStor.trans hok.keeps.hintStor,
        fun r => ?_, fun e he => ?_⟩
      · rw [hacc.cpuStats, flowDispatchAccount_other k s (by decide), hok.keeps.cpuStats]
      · rw [hacc.dsq] at he
        have hw := hok.queue flowOverflowDsq (scxLocalOn_ne (by decide))
        generalize visitsOf flowOverflowDsq s.log = l at hw
        cases hw with
        | kept l rest hq ha => rwa [ha] at he
        | moved pre e' post hq ha hmv hpre =>
          rw [ha] at he
          rw [hq]
          rcases List.mem_append.mp he with he | he
          · exact List.mem_append_left _ he
          · exact List.mem_append_right _ (List.mem_cons_of_mem _ he)

end Ranges

section Step

theorem commit_calm {o : OpOut} (ho : ∀ e ∈ o.eff, e.isCalm) :
    (∀ r, (w.commit k p o).cpuStats r .redRejects = w.cpuStats r .redRejects)
      ∧ (w.commit k p o).dsq = w.dsq :=
  ⟨fun r => run_stats _ k p (fun e he => (ho e he).2) r, run_dsq _ k p fun e he => (ho e he).1⟩

theorem flowCpuRelease_frame (w : World) (k : Kernel) (cpu : ℤ) :
    (flowCpuRelease w k cpu).taskCtx = w.taskCtx ∧ (flowCpuRelease w k cpu).hintStor = w.hintStor
      ∧ (∀ r, (flowCpuRelease w k cpu).cpuStats r .redRejects = w.cpuStats r .redRejects)
      ∧ (flowCpuRelease w k cpu).dsq = w.dsq := by
  unfold flowCpuRelease
  split
  · have hs := perform_stats w k 0 (e := .count .gateRejects 1) (c := .redRejects) rfl
    rw [World.perform] at hs
    refine ⟨?_, ?_, hs, ?_⟩
    all_goals rw [flowCount_eq]
  · rw [flowClearRunning_eq]
    exact ⟨rfl, rfl, fun _ => rfl, rfl⟩

theorem step_ranges (h : RangesOk w) (c : Call) : RangesOk (w.step c) := by
  obtain ⟨k, op⟩ := c
  cases op with
  | enqueue p enqFlags =>
    obtain ⟨dsq, v, hs⟩ := flowEnqueue_shape w k p enqFlags
    exact h.commit k (hs.kept (h.ctxs p) h.rows)
  | running p => exact h.commit k (flowRunning_ok (h.ctxs p))
  | stopping p runnable => exact h.commit k (flowStopping_ok (h.ctxs p) runnable)
  | enable p => exact h.commit k (flowEnable_ok (h.ctxs p))
  | disable p =>
    refine h.commit k ?_
    unfold flowDisable
    simp only
    split
    · exact h.ctxs p
    · exact h.ctxs p
  | exitTask p => exact h.commit k (h.ctxs p)
  | cpuRelease cpu =>
    obtain ⟨ht, hh, -, -⟩ := flowCpuRelease_frame w k cpu
    exact h.of_eq ht hh
  | dispatch cpu =>
    obtain ⟨ht, hh, -, -⟩ := flowDispatch_frame w k cpu
    exact h.of_eq ht hh
  | setWeight p weight => exact h.setWeight p weight
  | cgroupInit cgrp => exact h.cgroupInit k cgrp
  | cgroupExit cgrp => exact h.cgroupExit cgrp
  | cgroupMove p dst =>
    show RangesOk (flowCgroupMove w k p dst)
    rw [flowCgroupMove_eq]
    exact ⟨h.rows, h.ctxs⟩
  | cgroupSetWeight cgrp weight => exact h.cgroupSetWeight k cgrp weight

/-- Nothing joined the reject queue and no RED reject was counted. -/
structure Quiet (w w' : World) : Prop where
  counts : ∀ r, w'.cpuStats r .redRejects = w.cpuStats r .redRejects
  queue : ∀ e ∈ w'.dsq flowOverflowDsq, e ∈ w.dsq flowOverflowDsq

theorem Quiet.of_eq {w' : World} (hs : w'.cpuStats = w.cpuStats) (hd : w'.dsq = w.dsq) :
    Quiet w w' :=
  ⟨fun r => by rw [hs], fun e he => by rwa [hd] at he⟩

theorem Quiet.commit (w : World) (k : Kernel) (p : TaskRef) {o : OpOut}
    (ho : ∀ e ∈ o.eff, e.isCalm) : Quiet w (w.commit k p o) := by
  obtain ⟨hs, hd⟩ := commit_calm (w := w) (k := k) (p := p) ho
  exact ⟨hs, fun e he => by rwa [hd] at he⟩

/-- Only an enqueue rejects. -/
theorem step_quiet (w : World) (c : Call) (h : ∀ p f, c.op ≠ .enqueue p f) :
    Quiet w (w.step c) := by
  obtain ⟨k, op⟩ := c
  have hcgroup (hop : op.isCgroup = true) : Quiet w (w.step ⟨k, op⟩) := by
    obtain ⟨stor, cache, heq⟩ := step_cgroup w k hop
    rw [heq]
    exact .of_eq rfl rfl
  cases op with
  | enqueue p enqFlags => exact absurd rfl (h p enqFlags)
  | running p => exact .commit w k p (flowRunning_isCalm w k p)
  | stopping p runnable => exact .commit w k p (flowStopping_isCalm w k p runnable)
  | enable p => exact .commit w k p fun e he => (flowEnable_ends w k p e he).isCalm
  | disable p => exact .commit w k p fun e he => (flowDisable_ends w k p e he).isCalm
  | exitTask p => exact .commit w k p fun e he => (flowExitTask_ends w k p e he).isCalm
  | cpuRelease cpu =>
    obtain ⟨-, -, hs, hd⟩ := flowCpuRelease_frame w k cpu
    exact ⟨hs, fun e he => hd ▸ he⟩
  | dispatch cpu =>
    obtain ⟨-, -, hs, hd⟩ := flowDispatch_frame w k cpu
    exact ⟨hs, hd⟩
  | setWeight p weight =>
    show Quiet w (flowSetWeight w p weight)
    rw [flowSetWeight_eq]
    exact .of_eq rfl rfl
  | cgroupInit cgrp => exact hcgroup rfl
  | cgroupExit cgrp => exact hcgroup rfl
  | cgroupMove p dst => exact hcgroup rfl
  | cgroupSetWeight cgrp weight => exact hcgroup rfl

end Step

section Runs

/-- The state of a fresh load, as far as admission reads it. -/
structure World.Untouched (w : World) : Prop where
  taskCtx : ∀ p, w.taskCtx p = none
  hintStor : ∀ id, w.hintStor id = none
  redRejects : ∀ cpu, w.cpuStats cpu .redRejects = 0
  rejectQueue : w.dsq flowOverflowDsq = []

/-- Every enqueue comes one period or more before the clock ends. -/
def ClockRoom (_ : World) (c : Call) : Prop :=
  ∀ p f, c.op = .enqueue p f → c.view.now.toNat + flowPeriodNs.toNat < 2 ^ 64

/-- An enqueue of the run put `e` into the reject queue at a closed gate or for want of a target. -/
def HeldBack (w : World) (calls : List Call) (e : Entry) : Prop :=
  ∃ pre k f post, calls = pre ++ ⟨k, .enqueue e.task f⟩ :: post
    ∧ (∃ x ∈ (flowEnqueue (system.exec w pre) k e.task f).eff,
      x.entry e.task = some (flowOverflowDsq, e))
    ∧ (gateClosed (system.exec w pre) (k.task e.task) = true
      ∨ noTarget (system.exec w pre) k e.task = true)

theorem HeldBack.mono {calls : List Call} {e : Entry} (h : HeldBack w calls e) (c : Call) :
    HeldBack w (calls ++ [c]) e := by
  obtain ⟨pre, k, f, post, rfl, hx, hg⟩ := h
  exact ⟨pre, k, f, post ++ [c], by simp, hx, hg⟩

theorem flowEnqueue_not_red (h : RangesOk w) {p : TaskRef} {f : UInt64}
    (hnow : k.now.toNat + flowPeriodNs.toNat < 2 ^ 64) :
    countsOf .redRejects (flowEnqueue w k p f).eff = [] := by
  obtain ⟨dsq, c, hs⟩ := flowEnqueue_shape w k p f
  rw [hs.countsOf_eq (Or.inr (Or.inl rfl)), if_neg]
  intro hc
  obtain ⟨avg, dev, hint, slice, isCrit, hh, hsl, hred⟩ := hs.red hc (h.ctxs p) h.rows
  rw [flowRedShouldReject_fresh hnow hh hsl isCrit] at hred
  exact Bool.false_ne_true hred

/-- What joins the reject queue without a RED reject was held back. -/
theorem heldBack_of_entry {p : TaskRef} {f : UInt64} {x : Effect} {e : Entry}
    (hred : countsOf .redRejects (flowEnqueue w k p f).eff = [])
    (hx : x ∈ (flowEnqueue w k p f).eff) (he : x.entry p = some (flowOverflowDsq, e)) :
    gateClosed w (k.task p) = true ∨ noTarget w k p = true := by
  obtain ⟨dsq, c, hs⟩ := flowEnqueue_shape w k p f
  obtain ⟨join, hj⟩ := hs.joins
  have hins : flowOverflowDsq ∈ insertions (flowEnqueue w k p f).eff :=
    List.mem_filterMap.mpr ⟨x, hx, Effect.insertedTo_of_entry p he⟩
  rw [hs.insertions_eq, List.mem_singleton] at hins
  subst hins
  rw [hs.countsOf_eq (Or.inr (Or.inl rfl))] at hred
  rcases c with _ | c
  · generalize hd : flowOverflowDsq = d at hj
    cases hj
    exact absurd hd (scxLocalOn_ne (by decide))
  · rcases hj.verdictQueue with ⟨-, ht | ⟨cpu, hd⟩⟩ | ⟨rfl | rfl, -⟩
    · exact absurd ht.lt (lt_irrefl _)
    · exact absurd hd (scxLocalOn_ne (by decide))
    · simp at hred
    · exact hs.gated rfl

/-- What a run keeps. -/
structure Admitted (w : World) (calls : List Call) : Prop where
  ranges : RangesOk (system.exec w calls)
  counts : ∀ cpu, (system.exec w calls).cpuStats cpu .redRejects = 0
  queue : ∀ e ∈ (system.exec w calls).dsq flowOverflowDsq, HeldBack w calls e

theorem Admitted.start (hw : w.Untouched) : Admitted w [] where
  ranges := ⟨fun id row h => by simp [hw.hintStor] at h, fun p => by
    rw [system.exec_nil, hw.taskCtx]
    exact ctxOk_none⟩
  counts := hw.redRejects
  queue := by simp [hw.rejectQueue]

theorem Admitted.snoc {calls : List Call} {c : Call} (h : Admitted w calls)
    (hc : ClockRoom (system.exec w calls) c) : Admitted w (calls ++ [c]) := by
  have hexec : system.exec w (calls ++ [c]) = (system.exec w calls).step c := system.exec_snoc ..
  have hranges := step_ranges h.ranges c
  by_cases hop : ∃ p f, c.op = .enqueue p f
  · obtain ⟨k, op⟩ := c
    obtain ⟨p, f, rfl⟩ := hop
    have hred := flowEnqueue_not_red h.ranges (p := p) (f := f) (hc p f rfl)
    refine ⟨hexec ▸ hranges, fun cpu => ?_, fun e he => ?_⟩
    · rw [hexec]
      exact (run_stats _ k p (countsOf_eq_nil.mp hred) cpu).trans (h.counts cpu)
    · rw [hexec] at he
      rcases mem_run_dsq k p _ he with he | ⟨x, hx, hentry⟩
      · exact (h.queue e he).mono _
      · have hp : p = e.task := by
          cases x <;> simp_all [Effect.entry]
          all_goals rw [← hentry.2]
        subst hp
        exact ⟨calls, k, f, [], rfl, ⟨x, hx, hentry⟩, heldBack_of_entry hred hx hentry⟩
  · have hq := step_quiet (system.exec w calls) c fun p f hpf => hop ⟨p, f, hpf⟩
    refine ⟨hexec ▸ hranges, fun cpu => ?_, fun e he => ?_⟩
    · rw [hexec, hq.counts]
      exact h.counts cpu
    · rw [hexec] at he
      exact (h.queue e (hq.queue e he)).mono c

/-- From a fresh load no enqueue of any run rejects by RED, which alone counts RED rejects: the
counter stays zero and the reject queue holds only what was held back. -/
theorem redAdmission_never_rejects (w : World) (hw : w.Untouched) (calls : List Call)
    (hclock : system.Along ClockRoom w calls) :
    (∀ pre k p f post, calls = pre ++ ⟨k, .enqueue p f⟩ :: post →
        countsOf .redRejects (flowEnqueue (system.exec w pre) k p f).eff = [])
      ∧ (∀ cpu, (system.exec w calls).cpuStats cpu .redRejects = 0)
      ∧ ∀ e ∈ (system.exec w calls).dsq flowOverflowDsq, HeldBack w calls e := by
  have hrun : ∀ ls, system.Along ClockRoom w ls → Admitted w ls := fun ls h =>
    system.run_induction (Admitted.start hw) (fun ls c hc hi => hi.snoc hc) h
  refine ⟨?_, (hrun calls hclock).counts, (hrun calls hclock).queue⟩
  rintro pre k p f post rfl
  rw [system.along_append] at hclock
  exact flowEnqueue_not_red (hrun pre hclock.1).ranges (hclock.2.1 p f rfl)

/-- A task waits on CPU 0, runs, stops and waits again. -/
def waitsTwice : List Call :=
  [⟨Kernel.plain 1000, .enqueue 0 0⟩, ⟨Kernel.plain 2000, .running 0⟩,
    ⟨Kernel.plain 900000, .stopping 0 true⟩, ⟨Kernel.plain 900001, .enqueue 0 0⟩]

theorem redAdmission_never_rejects_twice :
    (World.boot 2 1 fun _ => 0).Untouched
      ∧ system.Along ClockRoom (World.boot 2 1 fun _ => 0) waitsTwice
      ∧ ∀ cpu, (system.exec (World.boot 2 1 fun _ => 0) waitsTwice).cpuStats cpu .redRejects = 0 := by
  have hw : (World.boot 2 1 fun _ => 0).Untouched := ⟨fun _ => rfl, fun _ => rfl, fun _ => rfl, rfl⟩
  have hc : system.Along ClockRoom (World.boot 2 1 fun _ => 0) waitsTwice :=
    ⟨fun _ _ _ => by decide, fun _ _ _ => by decide, fun _ _ _ => by decide,
      fun _ _ _ => by decide, trivial⟩
  exact ⟨hw, hc, (redAdmission_never_rejects _ hw _ hc).2.1⟩

end Runs

end ScxFlow
