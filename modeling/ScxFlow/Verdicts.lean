import ScxFlow.Enqueue

/-!
# The latency verdicts of an enqueue

One `flow_enqueue` call computes the latency of its task up to three times, from different mixes of
locals and stored fields.  Below each path that uses a verdict stand its uses in program order, each
with the value the path has there, on the state it has there, and with the other arguments of the
call that the verdict goes into.
-/

namespace ScxFlow

/-- What a verdict decides. -/
inductive VerdictUse
  /-- The tier cap of a fresh slice. -/
  | tierCap
  /-- The clamp of a fresh slice. -/
  | sliceClamp
  /-- The cap of a fresh key. -/
  | keyCap
  /-- The tolerance and the victim gate of `flow_red_should_reject`. -/
  | redCheck (deadline now avg : UInt64) (slice : UInt32)
  /-- The value of a task in the reject queue, which `flow_red_value` makes from its share. -/
  | rejectValue (share : UInt32)
  /-- The gate of the preempt test, and the arrival's argument of `flow_preempt_ok`. -/
  | preempt (arrKey occKey now occRunAt : UInt64) (occCur : UInt32) (occLat : Bool)
  deriving DecidableEq

/-- One use with the verdict it has. -/
structure Verdict where
  use : VerdictUse
  isLat : Bool
  deriving DecidableEq

/-- The fresh branch: the verdict caps the slice, and unless the head was preempted clamps it and
caps the key. -/
def freshVerdicts (o : FlowOpenTail) : List Verdict :=
  let (sleep, t) := flowTakeSleep o.tctx o.now o.avg
  let isLat := flowEnqueueIsLat o.avg o.dev o.hint sleep
    (flowTaskEffectiveWeight t.weight o.hintW)
  if isPreempt o.enqFlags then [⟨.tierCap, isLat⟩]
  else [⟨.tierCap, isLat⟩, ⟨.sliceClamp, isLat⟩, ⟨.keyCap, isLat⟩]

/-- `flow_enqueue_open`: a requeue keeps its slice and its key. -/
def openVerdicts (o : FlowOpenTail) : List Verdict := if !o.isReenq then freshVerdicts o else []

/-- `flow_enqueue_reject`: the check, and the value of a reject. -/
def rejectVerdicts (r : FlowRejectTail) : List Verdict :=
  let check : Verdict := ⟨.redCheck r.deadline r.now r.avg r.slice, r.isLat⟩
  if !flowRedShouldReject r.deadline r.now r.avg r.slice r.isLat then [check]
  else [check, ⟨.rejectValue (flowTaskEffectiveWeight r.tctx.weight r.hintW), r.isLat⟩]

/-- `flow_enqueue_miss` past its two tests. -/
def rejoinVerdicts (m : FlowMissTail) : List Verdict :=
  let sleep := (flowTakeSleep (flowCountMiss m.tctx) m.now m.avg).1
  let t := flowMissCtx m
  let isLat := flowEnqueueIsLat m.avg m.dev m.hint sleep
    (flowTaskEffectiveWeight t.weight m.hintW)
  rejectVerdicts ⟨t, t.deadline, m.now, m.avg, t.sliceNs, isLat, m.hintW, m.enqFlags, m.sel⟩

/-- The slice and the key of a pinned wait: a miss and a requeue hold theirs. -/
def pinnedFairVerdicts (o : FlowOpenTail) (miss : Bool) : List Verdict :=
  if miss then [] else if !o.isReenq then freshVerdicts o else []

/-- `flow_enqueue_pinned` from its RED check on. -/
def pinnedJoinVerdicts (w : World) (k : Kernel) (p : TaskRef) (t : FlowTaskCtx) (out : FlowOpenOut)
    (pc : ℤ) (enqFlags : UInt64) : List Verdict :=
  let ts := k.task p
  let pavg := t.avgNs.toUInt64
  let pdev := t.devNs.toUInt64
  let isLat :=
    if out.isFresh then out.isLat
    else flowEnqueueIsLat pavg pdev t.hintUs out.sleepNs
      (flowTaskEffectiveWeight t.weight t.hintW)
  let costSl := if out.isFresh && !isPreempt enqFlags then out.preSlice else t.sliceNs
  let rej : FlowRejectTail :=
    ⟨t, t.deadline, k.now, pavg, costSl, isLat, t.hintW, enqFlags, ts.selectedCpu⟩
  rejectVerdicts rej ++
    if (flowEnqueueReject w k p rej).isSome then []
    else if flowCpuOk w ts pc then []
    else
      -- a homeless pin computes its value anew
      let ptw := if t.weight = 0 then flowWeightBase.toUInt32 else t.weight
      let peff := flowTaskEffectiveWeight ptw t.hintW
      [⟨.rejectValue peff, flowEnqueueIsLat pavg pdev t.hintUs out.sleepNs peff⟩]

/-- `flow_enqueue_pinned` from the stored hint on. -/
def pinnedWaitVerdicts (w : World) (k : Kernel) (p : TaskRef) (t : FlowTaskCtx) (pc : ℤ)
    (enqFlags : UInt64) : List Verdict :=
  let now := k.now
  let miss := flowPinnedMissed t now
  let t := flowPinnedCtx t now
  let o : FlowOpenTail := ⟨t, t.deadline, now, enqFlags, t.hintUs, t.hintW, t.avgNs.toUInt64,
    t.devNs.toUInt64, isReenq enqFlags⟩
  let f := flowPinnedFair o miss
  pinnedFairVerdicts o miss ++ pinnedJoinVerdicts w k p f.1 f.2 pc enqFlags

/-- The busy half of `flow_enqueue_kick`: the arrival's verdict gates the preempt. -/
def kickBusyVerdicts (w : World) (k : Kernel) (p : TaskRef) (t : FlowTaskCtx)
    (e : FlowEnqueueTail) (occPid : UInt32) : List Verdict :=
  match k.taskFromPid occPid with
  | none => []
  | some trusted =>
    if (k.task trusted).taskCpu ≠ e.cpu then []
    else
      match (Function.update w.taskCtx p (some t)) trusted with
      | none => []
      | some octx =>
        if octx.deadline = 0 then []
        else [⟨.preempt e.vtime octx.deadline e.now octx.runAt octx.sliceNs (flowCtxIsLat octx 0),
          flowCtxIsLat t e.arrSleep⟩]

def kickVerdicts (w : World) (k : Kernel) (p : TaskRef) (t : FlowTaskCtx) (e : FlowEnqueueTail) :
    List Verdict :=
  match flowCpu w e.cpu.toNat with
  | none => []
  | some st =>
    if !e.hoistElig then []
    else if st.runningPid = 0 then []
    else if e.isReenq then []
    else if st.runningPid = (k.task p).pid then []
    else kickBusyVerdicts w k p t e st.runningPid

/-- The open path from its RED check to the kick. -/
def openJoinVerdicts (w : World) (k : Kernel) (p : TaskRef) (t : FlowTaskCtx) (out : FlowOpenOut)
    (cpu : ℤ) (enqFlags : UInt64) : List Verdict :=
  let now := k.now
  let costSl := if out.isFresh && !isPreempt enqFlags then out.preSlice else t.sliceNs
  let rej : FlowRejectTail :=
    ⟨t, t.deadline, now, t.avgNs.toUInt64, costSl, out.isLat, t.hintW, enqFlags,
      (k.task p).selectedCpu⟩
  rejectVerdicts rej ++
    if (flowEnqueueReject w k p rej).isSome then []
    else
      let elig := flowEligible t.vruntime (flowCpuMin w cpu.toNat) t.vlag
      let tail : FlowEnqueueTail :=
        ⟨cpu, out.vtime, now, enqFlags, out.sleepNs, isReenq enqFlags, elig⟩
      if (flowEnqueuePlace w tail).1 then [] else kickVerdicts w k p t tail

/-- The open path from the fresh deadline on. -/
def admitVerdicts (w : World) (k : Kernel) (p : TaskRef) (t : FlowTaskCtx) (cpu : ℤ)
    (enqFlags : UInt64) : List Verdict :=
  let deadline := flowPredDeadline k.now t.avgNs.toUInt64 t.devNs.toUInt64 t.hintUs
  let t := { t with deadline := deadline }
  let o : FlowOpenTail := ⟨t, deadline, k.now, enqFlags, t.hintUs, t.hintW, t.avgNs.toUInt64,
    t.devNs.toUInt64, isReenq enqFlags⟩
  let f := flowEnqueueOpen o
  openVerdicts o ++ openJoinVerdicts w k p f.1 f.2 cpu enqFlags

/-- The miss rejoin or the open path, past the hint and the clamp. -/
def liveVerdicts (w : World) (k : Kernel) (p : TaskRef) (t : FlowTaskCtx) (cpu : ℤ)
    (enqFlags : UInt64) : List Verdict :=
  let h := flowEnqueueHint w k p t enqFlags
  let t := flowClampToMin w { t with hintUs := h.1.1, hintW := h.1.2 } cpu.toNat
  let miss : FlowMissTail := ⟨t, cpu, (k.task p).selectedCpu, k.now, enqFlags, t.hintUs, t.hintW,
    t.avgNs.toUInt64, t.devNs.toUInt64⟩
  if (flowEnqueueMiss w k p miss).isSome then rejoinVerdicts miss
  else admitVerdicts w k p t cpu enqFlags

def pinnedVerdicts (w : World) (k : Kernel) (p : TaskRef) (t : FlowTaskCtx) (enqFlags : UInt64) :
    List Verdict :=
  let ts := k.task p
  let pc := flowPickTarget w k p ts.selectedCpu
  let h := flowEnqueueHint w k p t enqFlags
  let t := { t with hintUs := h.1.1, hintW := h.1.2 }
  let t := if pc ≥ 0 ∧ flowCpuOk w ts pc then flowClampToMin w t pc.toNat else t
  pinnedWaitVerdicts w k p t pc enqFlags

/-- The value of a task at the gate, without a sleep; without state it is no latency task. -/
def gateMissVerdicts (w : World) (p : TaskRef) : List Verdict :=
  match w.taskCtx p with
  | none => [⟨.rejectValue flowWeightBase.toUInt32, false⟩]
  | some t =>
    let geff := flowTaskEffectiveWeight t.weight t.hintW
    [⟨.rejectValue geff, flowIsLat t.avgNs.toUInt64 t.devNs.toUInt64 t.hintUs 0 0 geff⟩]

/-- The value of a task whose state could not be created, where no live CPU takes it. -/
def noStateVerdicts (w : World) (k : Kernel) (p : TaskRef) : List Verdict :=
  let ts := k.task p
  let h := flowTaskHintWeight w k p
  if flowCpuOk w ts (flowPickTarget w k p ts.selectedCpu) then []
  else [⟨.rejectValue (flowTaskEffectiveWeight flowWeightBase.toUInt32 h.1.2), false⟩]

/-- The value of a task no live CPU takes. -/
def homelessVerdicts (k : Kernel) (t : FlowTaskCtx) : List Verdict :=
  let avg := t.avgNs.toUInt64
  let sleep := flowSleepNs t.waitAt k.now avg
  let heff := flowTaskEffectiveWeight t.weight t.hintW
  [⟨.rejectValue heff, flowIsLat avg t.devNs.toUInt64 t.hintUs sleep 0 heff⟩]

/-- The uses of one `flow_enqueue` call, in order. -/
def flowEnqueueVerdicts (w : World) (k : Kernel) (p : TaskRef) (enqFlags : UInt64) :
    List Verdict :=
  let ts := k.task p
  if (flowEnqueueExiting w k p enqFlags).isSome then []
  else if !flowEntryOk w ts ts.selectedCpu 0 && !flowEntryOk w ts ts.taskCpu 0 then
    gateMissVerdicts w p
  else
    match flowGet w k p with
    | none => noStateVerdicts w k p
    | some t =>
      let t := flowEnqueueDefaults t
      if flowTaskPinned ts then pinnedVerdicts w k p t enqFlags
      else
        let cpu := flowPickTarget w k p ts.selectedCpu
        if !flowCpuOk w ts cpu then homelessVerdicts k t
        else liveVerdicts w k p t cpu enqFlags

end ScxFlow
