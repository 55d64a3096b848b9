import ScxFlow.State

/-!
# Times, shares, keys and the guarantee

The pure helpers of `intf.h` and of `edf.bpf.c` on machine words: the wrap-safe order, the
saturating sum, shares and the scaled service, the strict key, slices, and the residual, the
exceed and the laxity of the RED guarantee.
-/

namespace ScxFlow

/-- `flow_time_before`: the sign of the difference keeps the order across the wrap. -/
def flowTimeBefore (a b : UInt64) : Bool := decide ((a - b).toInt64 < 0)

def flowSatAdd (a b : UInt64) : UInt64 :=
  let out := a + b
  if out < a then u64Max else out

def flowDeltaClamp (now start : UInt64) : UInt64 :=
  if start = 0 then 0
  else if flowTimeBefore now start then 0
  else now - start

def flowGapIsResume (delta : UInt64) : Bool := decide (delta > flowResumeGapNs)

section Shares

def flowWeightClamp (w : UInt32) : UInt32 :=
  if w < flowWeightMin.toUInt32 then flowWeightMin.toUInt32
  else if w > flowWeightMax.toUInt32 then flowWeightMax.toUInt32
  else w

def flowShareCombine (taskW hintW : UInt32) : UInt32 :=
  let t := flowWeightClamp taskW
  let h := flowWeightClamp hintW
  let prod := t.toUInt64 * h.toUInt64
  let eff := prod >>> 7
  if eff < flowWeightMin then flowWeightMin.toUInt32
  else if eff > flowWeightMax then flowWeightMax.toUInt32
  else eff.toUInt32

def flowTaskEffectiveWeight (taskW hintW : UInt32) : UInt32 :=
  let t := if taskW ≠ 0 then taskW else flowWeightBase.toUInt32
  let h := if hintW ≠ 0 then hintW else flowWeightBase.toUInt32
  flowShareCombine t h

def flowScaledDelta (delta : UInt64) (weight : UInt32) : UInt64 :=
  let w := flowWeightClamp weight
  if delta = 0 then 0
  else if delta > u64Max / flowWeightBase then u64Max
  else
    let prod := delta * flowWeightBase
    let out := prod / w.toUInt64
    if out = 0 then 1 else out

def flowVirtDeadline (ve request : UInt64) (weight : UInt32) : UInt64 :=
  flowSatAdd ve (flowScaledDelta request weight)

def flowLedgerAdvance (vruntime delta : UInt64) (weight : UInt32) : UInt64 :=
  flowSatAdd vruntime (flowScaledDelta delta weight)

def flowLagClamp (lag : Int32) : Int32 :=
  let bound : Int32 := flowVlagMaxNs.toUInt32.toInt32
  if lag > bound then bound
  else if lag < -bound then -bound
  else lag

def flowEligible (vruntime minVruntime : UInt64) (vlag : Int32) : Bool :=
  let lag := flowLagClamp vlag
  let lag := if lag < 0 then 0 else lag
  let limit := flowSatAdd minVruntime lag.toInt64.toUInt64
  if limit = u64Max then true
  else if vruntime = limit then true
  else flowTimeBefore vruntime limit

end Shares

section Deadlines

def flowEdfKey (deadline vd : UInt64) : UInt64 :=
  if deadline = 0 then vd
  else if vd = 0 then deadline
  else if flowTimeBefore vd deadline then vd
  else deadline

def flowRemainingNs (deadline now : UInt64) : UInt64 :=
  if deadline = 0 then 0
  else if flowTimeBefore now deadline then deadline - now
  else 0

def flowSleepNs (oldWait now avg : UInt64) : UInt64 :=
  if oldWait = 0 then 0
  else if !flowTimeBefore oldWait now then 0
  else
    let gap := now - oldWait
    if avg ≠ 0 then (if gap > avg then gap - avg else 0) else gap

def flowDeadlineAt (now period : UInt64) : UInt64 := flowSatAdd now period

def flowTaskPeriod (hintUs : UInt32) : UInt64 :=
  if hintUs = 0 then flowPeriodNs
  else
    let hint := hintUs.toUInt64
    if hint > 18446744073709551 then u64Max else hint * 1000

def flowFallbackDeadline (now : UInt64) (hintUs : UInt32) : UInt64 :=
  flowDeadlineAt now (flowTaskPeriod hintUs)

/-- `flow_missed`: only a time strictly past a set deadline counts. -/
def flowMissed (deadline now : UInt64) : Bool :=
  if deadline = 0 then false
  else if flowTimeBefore now deadline then false
  else if now = deadline then false
  else true

def flowDeadlineOk (deadline now : UInt64) : Bool :=
  if deadline = 0 then true
  else if flowTimeBefore now deadline then true
  else if now = deadline then true
  else false

end Deadlines

section Slices

def flowSliceFor (deadline now : UInt64) : UInt32 :=
  let rem := flowRemainingNs deadline now
  if rem < flowSliceMinNs then flowSliceMinNs.toUInt32
  else if rem > flowQuantumNs then flowQuantumNs.toUInt32
  else rem.toUInt32

def flowSliceInherit (cur : UInt32) : UInt32 :=
  if cur = 0 then flowQuantumNs.toUInt32 else cur

def flowSliceMissHold (cur : UInt32) : UInt32 :=
  let s := flowSliceInherit cur
  if s < flowSliceMinNs.toUInt32 then flowSliceMinNs.toUInt32 else s

/-- What is left of a slice that ends at `occEnd`. -/
def flowResumeRem (occEnd now : UInt64) : UInt64 :=
  if !flowTimeBefore now occEnd && decide (now ≠ occEnd) then 0
  else if flowTimeBefore now occEnd then occEnd - now
  else 0

/-- `flow_slice_resume`, the leftover of a preempted head. -/
def flowSliceResume (occStart now : UInt64) (occLat : Bool) (cur : UInt32) : UInt32 :=
  if occStart = 0 ∨ occStart = u64Max then flowSliceInherit cur
  else
    let base := (flowSliceInherit cur).toUInt64
    let occEnd := flowSatAdd occStart base
    if occEnd = u64Max then flowSliceInherit cur
    else
      let rem := flowResumeRem occEnd now
      let cap := if occLat then flowSliceLatNs else flowQuantumNs
      if rem < flowSliceMinNs then flowSliceMinNs.toUInt32
      else if rem > cap then cap.toUInt32
      else rem.toUInt32

/-- `flow_carry_for`, the unused rest of the fixed quantum. -/
def flowCarryFor (delta : UInt64) : UInt32 :=
  let q := flowQuantumNs
  if delta ≥ q then flowSliceMinNs.toUInt32
  else
    let c := q - delta
    if c < flowSliceMinNs then flowSliceMinNs.toUInt32
    else if c > q then flowQuantumNs.toUInt32
    else c.toUInt32

end Slices

section Red

def flowRedCost (avg : UInt64) (slice : UInt32) : UInt64 :=
  if avg ≠ 0 then
    if avg < flowSliceMinNs then flowSliceMinNs
    else if avg > flowSliceMaxNs then flowSliceMaxNs
    else avg
  else if slice ≠ 0 then
    if slice.toUInt64 < flowSliceMinNs then flowSliceMinNs
    else if slice.toUInt64 > flowSliceMaxNs then flowSliceMaxNs
    else slice.toUInt64
  else flowQuantumNs

def flowRedTol (isCrit : Bool) : UInt64 := if isCrit then 0 else flowRedTolNs

/-- `flow_red_residual`, in the signed words of the source. -/
def flowRedResidual (deadline now cost : UInt64) : Int64 :=
  if deadline = 0 then flowPredMaxNs.toInt64
  else
    let left :=
      if flowTimeBefore now deadline then (deadline - now).toInt64
      else if now = deadline then 0
      else -(now - deadline).toInt64
    left - cost.toInt64

def flowRedExceed (resid : Int64) (tol : UInt64) : UInt64 :=
  let sum := resid + tol.toInt64
  if sum ≥ 0 then 0 else (-sum).toUInt64

def flowRedValue (weight : UInt32) (isCrit : Bool) : UInt32 :=
  if isCrit then flowWeightMax.toUInt32
  else if weight = 0 then flowWeightClamp flowWeightBase.toUInt32
  else flowWeightClamp weight

def flowRedLaxity (deadline now cost : UInt64) : UInt64 :=
  if deadline = 0 then 0
  else if !flowTimeBefore now deadline && decide (now ≠ deadline) then 0
  else
    let rem := deadline - now
    if rem < cost then 0 else rem - cost

def flowRejectKey (value : UInt32) : UInt64 :=
  let v := flowWeightClamp value
  (flowWeightMax.toUInt32 - v).toUInt64

/-- `flow_red_gate`: the newcomer itself is the victim. -/
def flowRedGate (cost exceed emax : UInt64) (isCrit : Bool) (deadline : UInt64) : Bool :=
  if exceed = 0 then false
  else if isCrit then false
  else if deadline = 0 then false
  else if cost ≤ emax then false
  else if cost ≤ exceed then false
  else true

def flowRedShouldReject (deadline now avg : UInt64) (slice : UInt32) (isCrit : Bool) : Bool :=
  let cost := flowRedCost avg slice
  let tol := flowRedTol isCrit
  let emax := flowRedEmaxNs
  let resid := flowRedResidual deadline now cost
  let exceed := flowRedExceed resid tol
  flowRedGate cost exceed emax isCrit deadline

def flowRedReclaimOk (saved exceed laxity : UInt64) : Bool :=
  let emax := flowRedEmaxNs
  if saved < emax then false
  else if laxity = 0 then false
  else if saved < exceed then false
  else true

def flowDrainFromQ (n : ℤ) : UInt64 :=
  if n ≤ 0 then 0
  else if n.toNat > (u64Max / flowQuantumNs).toNat then u64Max
  else UInt64.ofNat n.toNat * flowQuantumNs

def flowCpuDrainHint (localQ nodeQ : ℤ) : UInt64 :=
  flowSatAdd (flowDrainFromQ localQ) (flowDrainFromQ nodeQ)

def flowReadyBefore (ready deadline : UInt64) : Bool :=
  if ready = u64Max then false
  else if flowTimeBefore ready deadline then true
  else if ready = deadline then true
  else false

def flowCpuMeetsFairHint (localQ nodeQ : ℤ) (vtime now : UInt64) : Bool :=
  if vtime = 0 then true
  else
    let drain := flowCpuDrainHint localQ nodeQ
    let ready := flowSatAdd now drain
    flowReadyBefore ready vtime

def flowIsPow2 (n : ℕ) : Bool := decide (n ≠ 0 ∧ n &&& (n - 1) = 0)

def flowWrapIdx (base n : ℕ) : ℕ :=
  if n = 0 then 0
  else if flowIsPow2 n then base &&& (n - 1)
  else base % n

end Red

end ScxFlow
