import ScxFlow.Insert

/-!
# The lifecycle ops

Running claims a segment start, stopping takes it and charges the segment, and enable, disable,
exit and release clear what a segment leaves: `lifecycle.bpf.c`.
-/

namespace ScxFlow

/-- The clock of `flow_running`, folded away from zero and from the maximum. -/
def flowRunStamp (now : UInt64) : UInt64 := if now = 0 ∨ now = u64Max then 1 else now

def flowRunning (w : World) (k : Kernel) (p : TaskRef) : OpOut :=
  let ts := k.task p
  let cpu := ts.taskCpu
  if !flowEntryOk w ts cpu 0 then ⟨w.taskCtx p, [.count .gateRejects 1]⟩
  else
    let stamp := flowRunStamp k.now
    let claim : Option FlowTaskCtx × List Effect := match w.taskCtx p with
      | none => (none, [])
      -- the swap claims from zero only, so a second running keeps the first start
      | some t =>
        if t.runAt = 0 then (some { t with runAt := stamp }, [.claimRun stamp]) else (some t, [])
    let owner : List Effect :=
      if cpu < 0 then []
      else if !flowCpuLive w cpu.toNat then []
      else [.setRunning cpu.toNat ts.pid]
    ⟨claim.1, claim.2 ++ owner⟩

section Stopping

structure FlowStopTail where
  tctx : FlowTaskCtx
  slice : UInt32
  miss : Bool
  satHi : UInt32
  costAvg : UInt64
  costSlice : UInt32
  delta : UInt64

def flowStopCommit (s : FlowStopTail) : FlowTaskCtx :=
  let t := { s.tctx with sliceNs := s.slice }
  let adaptMiss := if s.miss then (if t.adaptMiss < 0xffff then t.adaptMiss + 1 else t.adaptMiss)
    else 0
  let adaptSat :=
    if s.slice = flowSliceMinNs.toUInt32 ∨ s.slice = s.satHi then
      (if t.adaptSat < 0xffff then t.adaptSat + 1 else t.adaptSat)
    else 0
  let ccost := flowRedCost s.costAvg s.costSlice
  let csaved := if ccost > s.delta then ccost - s.delta else 0
  let cs := if csaved > 0xffffffff then 0xffffffff else csaved.toUInt32
  { t with adaptMiss := adaptMiss, adaptSat := adaptSat, adaptDelta := cs }

/-- The proportional step, which late runnable stops and completions share. -/
def flowStopAdapt (t : FlowTaskCtx) (now delta : UInt64) (miss isLat : Bool) (costAvg : UInt64) :
    FlowTaskCtx :=
  let expDl := t.deadline
  let exceed := if expDl ≠ 0 ∧ miss then now - expDl else 0
  let slack := if expDl ≠ 0 ∧ !miss ∧ now ≠ expDl then expDl - now else 0
  let nxt := flowAdaptProp t.sliceNs exceed slack
  let nxt := if isLat then flowSliceLatClamp nxt true else nxt
  let satHi := if isLat then flowSliceLatNs.toUInt32 else flowQuantumNs.toUInt32
  flowStopCommit ⟨t, nxt, miss, satHi, costAvg, t.sliceNs, delta⟩

/-- The slice a runnable stop keeps: the resumed leftover, the carry, or the step. -/
def flowStopRunnable (t : FlowTaskCtx) (start now delta : UInt64) (havePred isLat : Bool)
    (nAvg : UInt64) : FlowTaskCtx :=
  let wmiss := !flowDeadlineOk t.deadline now
  let preCur := t.sliceNs
  if !wmiss && havePred && decide (delta > 0)
      && decide (flowSatAdd delta flowPreemptTailNs < preCur.toUInt64) then
    let rem := flowSliceResume start now isLat preCur
    let remCap := if isLat then flowSliceLatNs.toUInt32 else flowQuantumNs.toUInt32
    flowStopCommit ⟨t, rem, false, remCap, if havePred then nAvg else 0, preCur, delta⟩
  else if !wmiss && havePred && decide (delta > 0) && decide (delta < flowQuantumNs) && isLat then
    let carry := flowSliceLatClamp (flowCarryFor delta) isLat
    let latCap := if isLat then flowSliceLatNs.toUInt32 else flowQuantumNs.toUInt32
    flowStopCommit ⟨t, carry, false, latCap, nAvg, preCur, delta⟩
  else flowStopAdapt t now delta wmiss isLat (if havePred then nAvg else 0)

/-- The raw segment: clamped on bad stamps, and zero past a suspend. -/
def flowStopDelta (now start : UInt64) : UInt64 :=
  let delta := flowDeltaClamp now start
  if flowGapIsResume delta then 0 else delta

/-- The charge of a nonzero segment to the predictor and the ledger. -/
def flowStopCharge (t : FlowTaskCtx) (delta : UInt64) : FlowTaskCtx :=
  let nAvg := flowPredAvg t.avgNs.toUInt64 delta
  let nDev := flowPredDev t.devNs.toUInt64 nAvg delta
  let taskW := if t.weight = 0 then flowWeightBase.toUInt32 else t.weight
  let effW := flowTaskEffectiveWeight taskW t.hintW
  let nVrun := flowLedgerAdvance t.vruntime delta effW
  { t with avgNs := nAvg.toUInt32, devNs := nDev.toUInt32, vruntime := nVrun }

/-- The storage after the charge, untouched by an empty segment. -/
def flowStopCharged (t : FlowTaskCtx) (delta : UInt64) : FlowTaskCtx :=
  if delta ≠ 0 then flowStopCharge t delta else t

/-- The latency of a stop, on the predictor of its charge where there was one. -/
def flowStopIsLat (t : FlowTaskCtx) (delta : UInt64) : Bool :=
  let nAvg := flowPredAvg t.avgNs.toUInt64 delta
  let nDev := flowPredDev t.devNs.toUInt64 nAvg delta
  let sAvg := if delta ≠ 0 then nAvg else t.avgNs.toUInt64
  let sDev := if delta ≠ 0 then nDev else t.devNs.toUInt64
  let sTaskW := if t.weight = 0 then flowWeightBase.toUInt32 else t.weight
  flowIsLat sAvg sDev t.hintUs 0 0 (flowTaskEffectiveWeight sTaskW t.hintW)

/-- `flow_stopping` past the claim of the start: the charge, the slice and the counts. -/
def flowStopSegment (t : FlowTaskCtx) (ts : TaskStruct) (start now : UInt64) (runnable : Bool) :
    OpOut :=
  let cpu := ts.taskCpu
  let delta := flowStopDelta now start
  let havePred := decide (delta ≠ 0)
  let nAvg := flowPredAvg t.avgNs.toUInt64 delta
  let isLat := flowStopIsLat t delta
  let c := flowStopCharged t delta
  let late := !flowDeadlineOk c.deadline now
  let charge : List Effect := if delta ≠ 0
    then [.count .totalRuntime delta, .minAdvance cpu c.vruntime] else []
  if runnable then
    ⟨some (flowStopRunnable c start now delta havePred isLat nAvg),
      charge ++ [.clearRunningIfOwner cpu ts.pid, .count .requeues 1]⟩
  else
    let a := flowStopAdapt c now delta late isLat (if havePred then nAvg else 0)
    let credit : List Effect :=
      if delta > 0 ∧ havePred then [.creditAdd a.adaptDelta.toUInt64] else []
    let missed : List Effect := if late then [.count .misses 1] else []
    ⟨some (if late then flowCountMiss a else a),
      charge ++ credit ++ [.clearRunningIfOwner cpu ts.pid] ++ missed ++ [.count .completions 1]⟩

def flowStopping (w : World) (k : Kernel) (p : TaskRef) (runnable : Bool) : OpOut :=
  let ts := k.task p
  let cpu := ts.taskCpu
  if !flowEntryOk w ts cpu 0 then ⟨w.taskCtx p, [.count .gateRejects 1]⟩
  else
    match w.taskCtx p with
    | none => ⟨none, [.clearRunningIfOwner cpu ts.pid]⟩
    | some t =>
      let start := t.runAt
      let t := { t with runAt := 0 }
      if start = 0 then ⟨some t, [.clearRunningIfOwner cpu ts.pid]⟩
      else
        let o := flowStopSegment t ts start k.now runnable
        ⟨o.ctx, .takeRun start (flowStopDelta k.now start) :: o.eff⟩

end Stopping

section Ends

/-- The state `flow_enable` writes, field by field over whatever was stored. -/
def FlowTaskCtx.fresh : FlowTaskCtx :=
  { vruntime := 0, deadline := 0, waitAt := 0, runAt := 0, hintW := flowWeightBase.toUInt32
    avgNs := 0, devNs := 0, vlag := 0, weight := flowWeightBase.toUInt32
    sliceNs := flowQuantumNs.toUInt32, hintUs := 0, misses := 0, adaptMiss := 0, adaptSat := 0
    adaptDelta := 0 }

def flowEnable (w : World) (k : Kernel) (p : TaskRef) : OpOut :=
  let ts := k.task p
  if !flowEntryOk w ts ts.taskCpu 0 then ⟨w.taskCtx p, [.count .gateRejects 1]⟩
  else
    match flowGet w k p with
    | none => ⟨none, []⟩
    | some _ => ⟨some FlowTaskCtx.fresh, [.cacheInvalidate ts.pid]⟩

def flowDisable (w : World) (k : Kernel) (p : TaskRef) : OpOut :=
  let ts := k.task p
  if !flowEntryOk w ts ts.taskCpu 0 then ⟨w.taskCtx p, [.count .gateRejects 1]⟩
  else ⟨w.taskCtx p, [.cacheInvalidate ts.pid, .clearRunningIfOwner ts.taskCpu ts.pid]⟩

/-- `flow_exit_task`, exempt from the gate. -/
def flowExitTask (w : World) (k : Kernel) (p : TaskRef) : OpOut :=
  let ts := k.task p
  ⟨w.taskCtx p, [.cacheInvalidate ts.pid, .clearRunningIfOwner ts.taskCpu ts.pid]⟩

def flowCpuRelease (w : World) (k : Kernel) (cpu : ℤ) : World :=
  if cpu ≥ 0 ∧ !flowCpuLive w cpu.toNat then flowCount w k .gateRejects 1
  else flowClearRunning w cpu

end Ends

end ScxFlow
