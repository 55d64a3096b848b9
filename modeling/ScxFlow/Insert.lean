import ScxFlow.Hints

/-!
# Joining a queue

The tier joins, the reject join and the idle kick that the enqueue paths share: `target.bpf.c`,
`preempt.bpf.c` and the upper half of `insert.bpf.c`.  Each returns its effects in order.
-/

namespace ScxFlow

/-- Requeues and last slice expiries carry one of the two flags. -/
def isReenq (enqFlags : UInt64) : Bool := decide (enqFlags &&& (scxEnqReenq ||| scxEnqLast) ≠ 0)

def isPreempt (enqFlags : UInt64) : Bool := decide (enqFlags &&& scxEnqPreempt ≠ 0)

def flowTaskPinned (ts : TaskStruct) : Bool :=
  if ts.migrationDisabled then true else if ts.nrCpusAllowed = 1 then true else false

/-- `flow_pick_target`: the selected CPU, else the first allowed one, else none at `-1`. -/
def flowPickTarget (w : World) (k : Kernel) (p : TaskRef) (sel : ℤ) : ℤ :=
  let ts := k.task p
  if sel ≥ 0 ∧ flowCpuOk w ts sel then sel
  else
    let first := k.cpumaskFirst p
    if flowCpuOk w ts first then first else -1

section TierJoins

def flowLocalInsert (cpu : ℤ) (vtime : UInt64) : Effect :=
  .insertVtime (flowLocalDsq cpu.toNat) vtime 0

def flowNodeInsert (node : ℕ) (vtime : UInt64) : Effect :=
  .insertVtime (flowNodeDsq node) vtime 0

def flowMachineInsert (vtime : UInt64) : Effect :=
  .insertVtime flowMachineDsq vtime 0

/-- `flow_overflow_insert`: the greater value has the smaller key. -/
def flowOverflowInsert (enqFlags : UInt64) (value : UInt32) : Effect :=
  .insertVtime flowOverflowDsq (flowRejectKey value) enqFlags

def flowTierInsertHint (w : World) (cpu : ℤ) (vtime now : UInt64) (localQ nodeQ : ℤ) : Effect :=
  if cpu ≥ 0 && flowCpuMeetsFairHint localQ nodeQ vtime now then flowLocalInsert cpu vtime
  else if cpu ≥ 0 then
    let node := flowCpuNode w cpu.toNat
    if node < flowMaxNodes ∧ node < w.nrNodeIds then flowNodeInsert node vtime
    else flowMachineInsert vtime
  else flowMachineInsert vtime

/-- The depth of the node queue of a CPU, read only where the node is live. -/
def nodeQueued (w : World) (cpu : ℕ) : ℤ :=
  let node := flowCpuNode w cpu
  if node < flowMaxNodes ∧ node < w.nrNodeIds then nrQueued w (flowNodeDsq node) else 0

def flowTierInsert (w : World) (cpu : ℤ) (vtime now : UInt64) : Effect :=
  if cpu ≥ 0 then
    flowTierInsertHint w cpu vtime now (nrQueued w (flowLocalDsq cpu.toNat))
      (nodeQueued w cpu.toNat)
  else flowTierInsertHint w cpu vtime now 0 0

end TierJoins

section IdleKick

/-- The row of the CPU exists and names no running task. -/
def cpuIdle (w : World) (cpu : ℕ) : Bool :=
  match flowCpu w cpu with
  | none => false
  | some st => decide (st.runningPid = 0)

/-- The eligibility gate of one probe.  Without task state there is no vruntime to gate on. -/
def kickEligible (st : FlowCpuState) : Option FlowTaskCtx → Bool
  | none => true
  | some t => flowEligible t.vruntime st.minVruntime t.vlag

/-- `flow_kick_one_if_idle`: `none` lets the caller try its next candidate. -/
def flowKickOneIfIdle (w : World) (ts : TaskStruct) (cpu : ℤ) (t : Option FlowTaskCtx) :
    Option (List Effect) :=
  if !flowCpuOk w ts cpu then none
  else
    match flowCpu w cpu.toNat with
    | none => none
    | some st =>
      if st.runningPid ≠ 0 then none
      else if !kickEligible st t then some [.count .preemptSkipped 1]
      else some [.clearIdle cpu, .kickIdle cpu, .count .kicks 1]

/-- `flow_kick_idle_allowed`, with the state its lookup finds. -/
def flowKickIdleAllowed (w : World) (k : Kernel) (p : TaskRef) (t : Option FlowTaskCtx)
    (sel : ℤ) : List Effect :=
  let ts := k.task p
  match flowKickOneIfIdle w ts sel t with
  | some es => es
  | none =>
    match flowKickOneIfIdle w ts (k.pickIdleCpu p) t with
    | some es => es
    | none => (flowKickOneIfIdle w ts (k.cpumaskFirst p) t).getD []

def flowPreemptOk (arrKey occKey now occRunAt : UInt64) (occCur : UInt32) (arrLat occLat : Bool) :
    Bool :=
  if !arrLat || occLat then false
  else if arrKey = 0 ∨ arrKey = u64Max then false
  else if occKey = 0 ∨ occKey = u64Max then false
  else if !flowTimeBefore arrKey occKey then false
  else
    let margin := flowSatAdd arrKey flowPreemptMarginNs
    if margin = u64Max then false
    else if !flowTimeBefore margin occKey then false
    else if occRunAt = 0 ∨ occRunAt = u64Max then false
    else
      let base := (flowSliceInherit occCur).toUInt64
      let occEnd := flowSatAdd occRunAt base
      if occEnd = u64Max then false
      else
        let tail := flowSatAdd now flowPreemptTailNs
        if tail = u64Max then false
        else if !flowTimeBefore tail occEnd then false
        else true

end IdleKick

section FairKey

/-- `flow_take_sleep`: the sleep and the state with its wait stamped. -/
def flowTakeSleep (t : FlowTaskCtx) (now avg : UInt64) : UInt64 × FlowTaskCtx :=
  (flowSleepNs t.waitAt now avg, { t with waitAt := now })

def flowMakeFair (t : FlowTaskCtx) (deadline : UInt64) (hintW : UInt32) : UInt64 :=
  let taskW := if t.weight = 0 then flowWeightBase.toUInt32 else t.weight
  let eff := flowTaskEffectiveWeight taskW hintW
  let sl := if t.sliceNs = 0 then flowQuantumNs.toUInt32 else t.sliceNs
  let vd := flowVirtDeadline t.vruntime sl.toUInt64 eff
  flowEdfKey deadline vd

def flowClampToMin (w : World) (t : FlowTaskCtx) (cpu : ℕ) : FlowTaskCtx :=
  let min := flowCpuMin w cpu
  let bound := flowVlagMaxNs
  let floor := if min > bound then min - bound else 0
  if min > bound ∧ t.vruntime < floor then { t with vruntime := floor } else t

def flowEnqueueCapKey (vtime now : UInt64) : UInt64 :=
  let bound := flowSatAdd now flowPeriodNs
  if vtime ≠ 0 ∧ bound ≠ u64Max ∧ !flowTimeBefore vtime bound ∧ vtime ≠ bound then bound
  else vtime

def flowEnqueueIsLat (avg dev : UInt64) (hint : UInt32) (sleepNs : UInt64) (eff : UInt32) : Bool :=
  flowIsLat avg dev hint sleepNs 0 eff

/-- `flow_count_miss`, its write to the task. -/
def flowCountMiss (t : FlowTaskCtx) : FlowTaskCtx :=
  if t.misses ≠ 0xffffffff then { t with misses := t.misses + 1 } else t

structure FlowRejectTail where
  tctx : FlowTaskCtx
  deadline : UInt64
  now : UInt64
  avg : UInt64
  slice : UInt32
  isLat : Bool
  hintW : UInt32
  enqFlags : UInt64
  sel : ℤ

/-- `flow_enqueue_reject`: `none` admits. -/
def flowEnqueueReject (w : World) (k : Kernel) (p : TaskRef) (r : FlowRejectTail) :
    Option (List Effect) :=
  if !flowRedShouldReject r.deadline r.now r.avg r.slice r.isLat then none
  else
    let eff := flowTaskEffectiveWeight r.tctx.weight r.hintW
    some ([.count .redRejects 1, flowOverflowInsert r.enqFlags (flowRedValue eff r.isLat)]
      ++ flowKickIdleAllowed w k p (some r.tctx) r.sel)

end FairKey

end ScxFlow
