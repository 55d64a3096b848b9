import ScxFlow.Service

/-!
# The burst predictor, the latency test and the adaptive slice

The average and the deviation of the bursts with their up and down shifts, the period and the
deadline they predict, the unified latency test, and the proportional step of the slice.
-/

namespace ScxFlow

section Predictor

def flowPredClamp (v : UInt64) : UInt64 :=
  if v < flowPredMinNs then flowPredMinNs
  else if v > flowPredMaxNs then flowPredMaxNs
  else v

def flowPredAvg (avg delta : UInt64) : UInt64 :=
  let d := flowPredClamp (if delta ≠ 0 then delta else flowPredMinNs)
  if avg = 0 then d
  else if d > avg then
    let diff := (d - avg) >>> 3
    flowPredClamp (flowSatAdd avg diff)
  else
    let diff := (avg - d) >>> 4
    if diff > avg then flowPredMinNs else flowPredClamp (avg - diff)

def flowPredDev (dev avg delta : UInt64) : UInt64 :=
  let d := flowPredClamp (if delta ≠ 0 then delta else flowPredMinNs)
  let a := if avg ≠ 0 then avg else d
  let err := if d > a then d - a else a - d
  let err := flowPredClamp (if err ≠ 0 then err else flowPredMinNs)
  if dev = 0 then
    let floor := avg >>> 2
    if floor > err then flowPredClamp floor else err
  else if err > dev then
    let diff := (err - dev) >>> 2
    flowPredClamp (flowSatAdd dev diff)
  else
    let diff := (dev - err) >>> 3
    if diff > dev then flowPredMinNs else flowPredClamp (dev - diff)

def flowPredPeriod (avg dev : UInt64) : UInt64 :=
  if avg = 0 then flowPeriodNs
  else
    let margin := dev >>> 1
    let sum := flowSatAdd avg dev
    let sum := flowSatAdd sum margin
    if sum = u64Max then flowPredMaxNs else flowPredClamp sum

def flowPredDeadline (now avg dev : UInt64) (hintUs : UInt32) : UInt64 :=
  let period := if avg = 0 then flowTaskPeriod hintUs else flowPredPeriod avg dev
  flowDeadlineAt now period

end Predictor

section Latency

def flowLatCrit (avg dev : UInt64) : Bool :=
  if avg = 0 then false
  else
    let margin := dev >>> 1
    let pred := flowSatAdd avg dev
    let pred := flowSatAdd pred margin
    if pred = u64Max then false else decide (pred ≤ flowQuantumNs)

def flowLatCritExt (avg dev : UInt64) (hintUs : UInt32) (sleepNs : UInt64)
    (uclampMin effW : UInt32) : Bool :=
  if avg = 0 then false
  else
    let margin := dev >>> 1
    let pred := flowSatAdd avg dev
    let pred := flowSatAdd pred margin
    if pred = u64Max then false
    else if pred > flowQuantumNs then false
    else if hintUs ≠ 0 ∧ hintUs.toUInt64 > 18446744073709551 then false
    else if hintUs ≠ 0 ∧ hintUs.toUInt64 * 1000 > flowQuantumNs then false
    else if sleepNs ≠ 0 ∧ sleepNs < flowLatSleepMinNs then false
    else if uclampMin ≠ 0 ∧ uclampMin < flowCpuPerfHalf then false
    else if effW ≠ 0 ∧ effW < flowWeightBase.toUInt32 then false
    else true

/-- `flow_is_lat`, the base test and the vetoes together. -/
def flowIsLat (avg dev : UInt64) (hintUs : UInt32) (sleepNs : UInt64)
    (uclampMin effW : UInt32) : Bool :=
  if !flowLatCrit avg dev then false
  else flowLatCritExt avg dev hintUs sleepNs uclampMin effW

def flowSliceLatClamp (slice : UInt32) (isLat : Bool) : UInt32 :=
  if isLat && decide (slice > flowSliceLatNs.toUInt32) then flowSliceLatNs.toUInt32 else slice

def flowClassifyLatencyTier (avg dev : UInt64) (isCrit : Bool) : UInt32 :=
  let margin := dev >>> 1
  let pred := flowSatAdd avg dev
  let pred := flowSatAdd pred margin
  if isCrit || decide (pred ≤ flowSliceUllNs) then flowSliceUllNs.toUInt32
  else if pred ≤ flowSliceLlNs then flowSliceLlNs.toUInt32
  else if pred ≤ flowSliceMllNs then flowSliceMllNs.toUInt32
  else if pred ≤ flowSliceNlNs then flowSliceNlNs.toUInt32
  else if pred ≤ flowSliceEnlNs then flowSliceEnlNs.toUInt32
  else flowSliceMaxNs.toUInt32

def flowSliceTierCap (pre : UInt32) (avg dev : UInt64) (isLat : Bool) : UInt32 :=
  let tier := flowClassifyLatencyTier avg dev isLat
  let tier := if tier > flowQuantumNs.toUInt32 then flowQuantumNs.toUInt32 else tier
  if pre > tier then tier else pre

def flowLatDeadline (now : UInt64) (slice : UInt32) : UInt64 :=
  let need := flowSatAdd slice.toUInt64 flowPreemptMarginNs
  let bound := if need > flowDLatNs then need else flowDLatNs
  flowSatAdd now bound

end Latency

section Adapt

def flowAdaptDeadband (base : UInt64) : UInt64 :=
  let band := base >>> 5
  if band < flowAdaptDeadbandMinNs then flowAdaptDeadbandMinNs else band

/-- The clamp to the floor and the quantum that closes every branch of `flow_adapt_prop`. -/
def flowAdaptClamp (s : UInt64) : UInt32 :=
  if s < flowSliceMinNs then flowSliceMinNs.toUInt32
  else if s > flowQuantumNs then flowQuantumNs.toUInt32
  else s.toUInt32

/-- The capped and damped step of `flow_adapt_prop` for one exceed or one slack. -/
def flowAdaptStep (base amount : UInt64) : UInt64 :=
  let step := amount >>> 3
  let step := if step > flowAdaptPropMaxNs then flowAdaptPropMaxNs else step
  let step := if step > base >>> 1 then base >>> 1 else step
  step >>> 1

def flowAdaptProp (cur : UInt32) (exceed slack : UInt64) : UInt32 :=
  let base := (flowSliceInherit cur).toUInt64
  let band := flowAdaptDeadband base
  if exceed ≠ 0 then
    if exceed ≤ band then flowAdaptClamp base
    else
      let step := flowAdaptStep base exceed
      if step = 0 then flowAdaptClamp base
      else if base ≤ step then flowSliceMinNs.toUInt32
      else flowAdaptClamp (base - step)
  else if slack ≠ 0 then
    if slack ≤ band then flowAdaptClamp base
    else
      let step := flowAdaptStep base slack
      if step = 0 then flowAdaptClamp base
      else flowAdaptClamp (flowSatAdd base step)
  else flowAdaptClamp base

end Adapt

end ScxFlow
