import ScxFlow.Insert

/-!
# The enqueue op

`flow_enqueue` and the paths it hands a task to: pinned waits, the miss rejoin, the open fair time,
the direct bypass or tier join, and the kick.  Every path returns the task's storage and its effects
in program order; all shared state is read as the op found it.
-/

namespace ScxFlow

section Open

structure FlowOpenTail where
  tctx : FlowTaskCtx
  deadline : UInt64
  now : UInt64
  enqFlags : UInt64
  hint : UInt32
  hintW : UInt32
  avg : UInt64
  dev : UInt64
  isReenq : Bool

structure FlowOpenOut where
  vtime : UInt64
  preSlice : UInt32
  sleepNs : UInt64
  isLat : Bool
  isFresh : Bool

/-- The fresh branch of `flow_enqueue_open`, which a fresh pinned wait computes the same way. -/
def flowEnqueueFresh (o : FlowOpenTail) : FlowTaskCtx × FlowOpenOut :=
  let (sleep, t) := flowTakeSleep o.tctx o.now o.avg
  let isLat := flowEnqueueIsLat o.avg o.dev o.hint sleep
    (flowTaskEffectiveWeight t.weight o.hintW)
  let preSlice := flowSliceTierCap (flowSliceFor o.deadline o.now) o.avg o.dev isLat
  let latSlice := flowSliceLatClamp preSlice isLat
  if isPreempt o.enqFlags then
    let vtime := flowMakeFair t o.deadline o.hintW
    (t, ⟨flowEnqueueCapKey vtime o.now, preSlice, sleep, isLat, true⟩)
  else
    let t := { t with sliceNs := latSlice }
    let latVt := flowMakeFair t o.deadline o.hintW
    let vtime := if isLat then flowEdfKey latVt (flowLatDeadline o.now latSlice) else latVt
    (t, ⟨flowEnqueueCapKey vtime o.now, preSlice, sleep, isLat, true⟩)

def flowEnqueueOpen (o : FlowOpenTail) : FlowTaskCtx × FlowOpenOut :=
  if !o.isReenq then flowEnqueueFresh o
  else
    let (sleep, t) := flowTakeSleep o.tctx o.now o.avg
    let isLat := flowEnqueueIsLat o.avg o.dev o.hint sleep
      (flowTaskEffectiveWeight t.weight o.hintW)
    let t := { t with sliceNs := flowSliceInherit t.sliceNs }
    let vtime := flowMakeFair t o.deadline o.hintW
    (t, ⟨flowEnqueueCapKey vtime o.now, 0, sleep, isLat, false⟩)

end Open

section Miss

structure FlowMissTail where
  tctx : FlowTaskCtx
  cpu : ℤ
  sel : ℤ
  now : UInt64
  enqFlags : UInt64
  hint : UInt32
  hintW : UInt32
  avg : UInt64
  dev : UInt64

/-- The storage a miss rejoins with: counted, stamped, with a fresh deadline and its held slice. -/
def flowMissCtx (m : FlowMissTail) : FlowTaskCtx :=
  let t := (flowTakeSleep (flowCountMiss m.tctx) m.now m.avg).2
  { t with
    deadline := flowPredDeadline m.now m.avg m.dev m.hint
    sliceNs := flowSliceMissHold t.sliceNs }

/-- `flow_enqueue_miss` past its two tests. -/
def flowEnqueueRejoin (w : World) (k : Kernel) (p : TaskRef) (m : FlowMissTail) : OpOut :=
  let sleep := (flowTakeSleep (flowCountMiss m.tctx) m.now m.avg).1
  let t := flowMissCtx m
  let ndl := t.deadline
  let nvt := flowEnqueueCapKey (flowMakeFair t ndl m.hintW) m.now
  let isLat := flowEnqueueIsLat m.avg m.dev m.hint sleep
    (flowTaskEffectiveWeight t.weight m.hintW)
  let rej : FlowRejectTail :=
    ⟨t, ndl, m.now, m.avg, t.sliceNs, isLat, m.hintW, m.enqFlags, m.sel⟩
  let join := match flowEnqueueReject w k p rej with
    | some es => es
    | none => [flowTierInsert w m.cpu nvt m.now, .count .admits 1]
      ++ flowKickIdleAllowed w k p (some t) m.sel
  ⟨some t, [.count .misses 1, .storeDeadline ndl] ++ join⟩

/-- `flow_enqueue_miss`: `none` leaves the task to the caller. -/
def flowEnqueueMiss (w : World) (k : Kernel) (p : TaskRef) (m : FlowMissTail) : Option OpOut :=
  if m.tctx.deadline = 0 then none
  else if !flowMissed m.tctx.deadline m.now then none
  else some (flowEnqueueRejoin w k p m)

end Miss

section Pinned

/-- Where the slice and the key of a pinned wait come from, and what its RED check prices. -/
def flowPinnedFair (o : FlowOpenTail) (miss : Bool) : FlowTaskCtx × FlowOpenOut :=
  if miss then
    let (sleep, t) := flowTakeSleep o.tctx o.now o.avg
    let t := { t with sliceNs := flowSliceMissHold t.sliceNs }
    (t, ⟨flowEnqueueCapKey (flowMakeFair t o.deadline o.hintW) o.now, 0, sleep, false, false⟩)
  else if !o.isReenq then flowEnqueueFresh o
  else
    let (sleep, t) := flowTakeSleep o.tctx o.now o.avg
    let t := { t with sliceNs := flowSliceInherit t.sliceNs }
    (t, ⟨flowEnqueueCapKey (flowMakeFair t o.deadline o.hintW) o.now, 0, sleep, false, false⟩)

/-- `flow_enqueue_pinned` from its RED check on, with the storage `t` and the fair time `out`. -/
def flowPinnedJoin (w : World) (k : Kernel) (p : TaskRef) (t : FlowTaskCtx) (out : FlowOpenOut)
    (pc : ℤ) (enqFlags : UInt64) : OpOut :=
  let ts := k.task p
  let now := k.now
  let pavg := t.avgNs.toUInt64
  let pdev := t.devNs.toUInt64
  let isLat :=
    if out.isFresh then out.isLat
    else flowEnqueueIsLat pavg pdev t.hintUs out.sleepNs
      (flowTaskEffectiveWeight t.weight t.hintW)
  let costSl := if out.isFresh && !isPreempt enqFlags then out.preSlice else t.sliceNs
  let rej : FlowRejectTail :=
    ⟨t, t.deadline, now, pavg, costSl, isLat, t.hintW, enqFlags, ts.selectedCpu⟩
  match flowEnqueueReject w k p rej with
  | some es => ⟨some t, es⟩
  | none =>
    if flowCpuOk w ts pc then
      ⟨some t, [flowTierInsert w pc out.vtime now, .count .admits 1]
        ++ flowKickIdleAllowed w k p (some t) ts.selectedCpu⟩
    else
      let ptw := if t.weight = 0 then flowWeightBase.toUInt32 else t.weight
      let peff := flowTaskEffectiveWeight ptw t.hintW
      let pcrit := flowEnqueueIsLat pavg pdev t.hintUs out.sleepNs peff
      let t := { t with waitAt := now }
      ⟨some t, [.count .gateRejects 1, flowOverflowInsert enqFlags (flowRedValue peff pcrit)]
        ++ flowKickIdleAllowed w k p (some t) ts.selectedCpu⟩

/-- Whether the stored deadline of a pinned wait is past. -/
def flowPinnedMissed (t : FlowTaskCtx) (now : UInt64) : Bool :=
  decide (t.deadline ≠ 0) && flowMissed t.deadline now

/-- The storage of a pinned wait once its miss is counted and its deadline is fresh. -/
def flowPinnedCtx (t : FlowTaskCtx) (now : UInt64) : FlowTaskCtx :=
  let t := if flowPinnedMissed t now then flowCountMiss t else t
  { t with deadline := flowPredDeadline now t.avgNs.toUInt64 t.devNs.toUInt64 t.hintUs }

/-- `flow_enqueue_pinned` from the stored hint on. -/
def flowPinnedWait (w : World) (k : Kernel) (p : TaskRef) (t : FlowTaskCtx) (pc : ℤ)
    (enqFlags : UInt64) : OpOut :=
  let now := k.now
  let miss := flowPinnedMissed t now
  let t := flowPinnedCtx t now
  let f := flowPinnedFair ⟨t, t.deadline, now, enqFlags, t.hintUs, t.hintW, t.avgNs.toUInt64,
    t.devNs.toUInt64, isReenq enqFlags⟩ miss
  let o := flowPinnedJoin w k p f.1 f.2 pc enqFlags
  ⟨o.ctx, (if miss then [.count .misses 1] else []) ++ [.storeDeadline t.deadline] ++ o.eff⟩

/-- The hint and the share of one wait: the stored ones on a requeue, else a fresh read. -/
def flowEnqueueHint (w : World) (k : Kernel) (p : TaskRef) (t : FlowTaskCtx) (enqFlags : UInt64) :
    (UInt32 × UInt32) × List Effect :=
  if isReenq enqFlags then ((t.hintUs, t.hintW), []) else flowTaskHintWeight w k p

def flowEnqueuePinned (w : World) (k : Kernel) (p : TaskRef) (t : FlowTaskCtx)
    (enqFlags : UInt64) : OpOut :=
  let ts := k.task p
  let pc := flowPickTarget w k p ts.selectedCpu
  let h := flowEnqueueHint w k p t enqFlags
  let t := { t with hintUs := h.1.1, hintW := h.1.2 }
  let t := if pc ≥ 0 ∧ flowCpuOk w ts pc then flowClampToMin w t pc.toNat else t
  let o := flowPinnedWait w k p t pc enqFlags
  ⟨o.ctx, h.2 ++ o.eff⟩

end Pinned

section Kick

structure FlowEnqueueTail where
  cpu : ℤ
  vtime : UInt64
  now : UInt64
  enqFlags : UInt64
  arrSleep : UInt64
  isReenq : Bool
  hoistElig : Bool

/-- The two gates of the bypass on an idle CPU: nothing queued, or a drain before the key. -/
def flowBypassOk (w : World) (e : FlowEnqueueTail) : Bool :=
  let lq := nrQueued w (flowLocalDsq e.cpu.toNat)
  let mq := nrQueued w flowMachineDsq
  let oq := nrQueued w flowOverflowDsq
  -- a dead node reads as no depth, which is empty to the first gate as well
  let nq := nodeQueued w e.cpu.toNat
  let tiersEmpty := decide (lq ≤ 0 ∧ mq ≤ 0 ∧ oq ≤ 0 ∧ nq ≤ 0)
  let drainOk := flowCpuMeetsFairHint lq nq e.vtime e.now
  let drainOk := if mq > 0 then false else drainOk
  let drainOk := if oq > 0 then false else drainOk
  (tiersEmpty || drainOk) && e.hoistElig

/-- `flow_enqueue_place`: whether the direct bypass took, and its effects. -/
def flowEnqueuePlace (w : World) (e : FlowEnqueueTail) : Bool × List Effect :=
  if cpuIdle w e.cpu.toNat then
    if flowBypassOk w e then
      (true, [.insert (scxLocalOn e.cpu.toNat) e.enqFlags, .clearIdle e.cpu, .kickIdle e.cpu,
        .count .kicks 1])
    else
      (false, [flowTierInsertHint w e.cpu e.vtime e.now (nrQueued w (flowLocalDsq e.cpu.toNat))
        (nodeQueued w e.cpu.toNat)])
  else (false, [flowTierInsert w e.cpu e.vtime e.now])

/-- The unified latency of a task read from its state, with the zero weight mapped to base. -/
def flowCtxIsLat (t : FlowTaskCtx) (sleepNs : UInt64) : Bool :=
  let tw := if t.weight = 0 then flowWeightBase.toUInt32 else t.weight
  flowIsLat t.avgNs.toUInt64 t.devNs.toUInt64 t.hintUs sleepNs 0
    (flowTaskEffectiveWeight tw t.hintW)

/-- The busy half of `flow_enqueue_kick`: the owner of the CPU against the arrival `t`. -/
def flowEnqueueKickBusy (w : World) (k : Kernel) (p : TaskRef) (t : FlowTaskCtx)
    (e : FlowEnqueueTail) (occPid : UInt32) : List Effect :=
  match k.taskFromPid occPid with
  | none => []
  | some trusted =>
    if (k.task trusted).taskCpu ≠ e.cpu then []
    else
      match (Function.update w.taskCtx p (some t)) trusted with
      | none => []
      | some octx =>
        let occLat := flowCtxIsLat octx 0
        if octx.deadline = 0 then []
        else
          let arrLat := flowCtxIsLat t e.arrSleep
          if !arrLat then [.count .preemptSkipped 1]
          else if !flowPreemptOk e.vtime octx.deadline e.now octx.runAt octx.sliceNs arrLat occLat
          then [.count .preemptSkipped 1]
          else [.kickPreempt e.cpu, .count .kicks 1, .count .preemptKicks 1]

def flowEnqueueKick (w : World) (k : Kernel) (p : TaskRef) (t : FlowTaskCtx)
    (e : FlowEnqueueTail) : List Effect :=
  match flowCpu w e.cpu.toNat with
  | none => []
  | some st =>
    if !e.hoistElig then [.count .preemptSkipped 1]
    else if st.runningPid = 0 then [.clearIdle e.cpu, .kickIdle e.cpu, .count .kicks 1]
    else if e.isReenq then []
    else if st.runningPid = (k.task p).pid then []
    else flowEnqueueKickBusy w k p t e st.runningPid

end Kick

section Paths

/-- The exiting path, when the task's CPU is live and allowed. -/
def flowEnqueueExiting (w : World) (k : Kernel) (p : TaskRef) (enqFlags : UInt64) :
    Option (List Effect) :=
  let ts := k.task p
  let tgt := ts.taskCpu
  if ts.exiting && flowCpuOk w ts tgt then
    some ([.insert (scxLocalOn tgt.toNat) enqFlags]
      ++ if cpuIdle w tgt.toNat then [.kickIdle tgt, .count .kicks 1] else [])
  else none

/-- The gate miss.  No state is created here. -/
def flowEnqueueGateMiss (w : World) (k : Kernel) (p : TaskRef) (enqFlags : UInt64) : OpOut :=
  let sel := (k.task p).selectedCpu
  match w.taskCtx p with
  | none =>
    let gval := flowRedValue flowWeightBase.toUInt32 false
    ⟨none, [.count .gateRejects 1, flowOverflowInsert enqFlags gval]
      ++ flowKickIdleAllowed w k p none sel⟩
  | some t =>
    let t := { t with waitAt := k.now }
    let geff := flowTaskEffectiveWeight t.weight t.hintW
    let gcrit := flowIsLat t.avgNs.toUInt64 t.devNs.toUInt64 t.hintUs 0 0 geff
    ⟨some t, [.count .gateRejects 1, flowOverflowInsert enqFlags (flowRedValue geff gcrit)]
      ++ flowKickIdleAllowed w k p (some t) sel⟩

/-- The path of a task whose state could not be created. -/
def flowEnqueueNoState (w : World) (k : Kernel) (p : TaskRef) (enqFlags : UInt64) : OpOut :=
  let ts := k.task p
  let mc := flowPickTarget w k p ts.selectedCpu
  let h := flowTaskHintWeight w k p
  let mdl := flowFallbackDeadline k.now h.1.1
  if flowCpuOk w ts mc then
    ⟨none, h.2 ++ [flowTierInsert w mc mdl k.now, .count .admits 1]
      ++ flowKickIdleAllowed w k p none ts.selectedCpu⟩
  else
    let meff := flowTaskEffectiveWeight flowWeightBase.toUInt32 h.1.2
    ⟨none, h.2 ++ [.count .gateRejects 1, flowOverflowInsert enqFlags (flowRedValue meff false)]
      ++ flowKickIdleAllowed w k p none ts.selectedCpu⟩

/-- A zero weight and a zero slice take their neutral values. -/
def flowEnqueueDefaults (t : FlowTaskCtx) : FlowTaskCtx :=
  { t with
    weight := if t.weight = 0 then flowWeightBase.toUInt32 else t.weight
    sliceNs := if t.sliceNs = 0 then flowQuantumNs.toUInt32 else t.sliceNs }

/-- No live CPU takes the task. -/
def flowEnqueueHomeless (w : World) (k : Kernel) (p : TaskRef) (t : FlowTaskCtx)
    (enqFlags : UInt64) : OpOut :=
  let avg := t.avgNs.toUInt64
  let sleep := flowSleepNs t.waitAt k.now avg
  let heff := flowTaskEffectiveWeight t.weight t.hintW
  let hcrit := flowIsLat avg t.devNs.toUInt64 t.hintUs sleep 0 heff
  let t := { t with waitAt := k.now }
  ⟨some t, [.count .gateRejects 1, flowOverflowInsert enqFlags (flowRedValue heff hcrit)]
    ++ flowKickIdleAllowed w k p (some t) (k.task p).selectedCpu⟩

/-- The open path of `flow_enqueue` from its RED check to the kick. -/
def flowOpenJoin (w : World) (k : Kernel) (p : TaskRef) (t : FlowTaskCtx) (out : FlowOpenOut)
    (cpu : ℤ) (enqFlags : UInt64) : List Effect :=
  let now := k.now
  let costSl := if out.isFresh && !isPreempt enqFlags then out.preSlice else t.sliceNs
  let rej : FlowRejectTail :=
    ⟨t, t.deadline, now, t.avgNs.toUInt64, costSl, out.isLat, t.hintW, enqFlags,
      (k.task p).selectedCpu⟩
  match flowEnqueueReject w k p rej with
  | some es => es
  | none =>
    let elig := flowEligible t.vruntime (flowCpuMin w cpu.toNat) t.vlag
    let tail : FlowEnqueueTail :=
      ⟨cpu, out.vtime, now, enqFlags, out.sleepNs, isReenq enqFlags, elig⟩
    let place := flowEnqueuePlace w tail
    [.count .admits 1] ++ place.2 ++ if place.1 then [] else flowEnqueueKick w k p t tail

/-- The open path of `flow_enqueue`, from the fresh deadline on. -/
def flowEnqueueAdmit (w : World) (k : Kernel) (p : TaskRef) (t : FlowTaskCtx) (cpu : ℤ)
    (enqFlags : UInt64) : OpOut :=
  let deadline := flowPredDeadline k.now t.avgNs.toUInt64 t.devNs.toUInt64 t.hintUs
  let t := { t with deadline := deadline }
  let f := flowEnqueueOpen ⟨t, deadline, k.now, enqFlags, t.hintUs, t.hintW, t.avgNs.toUInt64,
    t.devNs.toUInt64, isReenq enqFlags⟩
  ⟨some f.1, [.storeDeadline deadline] ++ flowOpenJoin w k p f.1 f.2 cpu enqFlags⟩

/-- `flow_enqueue` past the target: the hint, the clamp, then the miss rejoin or the open path. -/
def flowEnqueueLive (w : World) (k : Kernel) (p : TaskRef) (t : FlowTaskCtx) (cpu : ℤ)
    (enqFlags : UInt64) : OpOut :=
  let ins := if t.deadline = 0 ∧ t.waitAt = 0 then [.count .inserts 1] else []
  let h := flowEnqueueHint w k p t enqFlags
  let t := flowClampToMin w { t with hintUs := h.1.1, hintW := h.1.2 } cpu.toNat
  let miss : FlowMissTail := ⟨t, cpu, (k.task p).selectedCpu, k.now, enqFlags, t.hintUs, t.hintW,
    t.avgNs.toUInt64, t.devNs.toUInt64⟩
  let o := (flowEnqueueMiss w k p miss).getD (flowEnqueueAdmit w k p t cpu enqFlags)
  ⟨o.ctx, ins ++ h.2 ++ o.eff⟩

def flowEnqueue (w : World) (k : Kernel) (p : TaskRef) (enqFlags : UInt64) : OpOut :=
  let ts := k.task p
  match flowEnqueueExiting w k p enqFlags with
  | some es => ⟨w.taskCtx p, es⟩
  | none =>
    if !flowEntryOk w ts ts.selectedCpu 0 && !flowEntryOk w ts ts.taskCpu 0 then
      flowEnqueueGateMiss w k p enqFlags
    else
      match flowGet w k p with
      | none => flowEnqueueNoState w k p enqFlags
      | some t =>
        let t := flowEnqueueDefaults t
        if flowTaskPinned ts then flowEnqueuePinned w k p t enqFlags
        else
          let cpu := flowPickTarget w k p ts.selectedCpu
          if !flowCpuOk w ts cpu then flowEnqueueHomeless w k p t enqFlags
          else flowEnqueueLive w k p t cpu enqFlags

end Paths

end ScxFlow
