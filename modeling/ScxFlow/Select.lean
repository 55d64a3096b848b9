import ScxFlow.Attach
import ScxFlow.Lib.Loop

/-!
# The select op

`flow_select_cpu`: the pinned pick, the idle probe, and the scan with its slowest and best
sufficient fits, from `select_cpu.bpf.c`, `select/idle.bpf.c` and `select/scan.bpf.c`.  A scan walks
a window of the ring of CPUs behind the shared cursor; its index arithmetic is the one on machine
words of the source.
-/

namespace ScxFlow

@[simp] def flowBsfMaxPeers : ℕ := 4
@[simp] def flowCapBase : UInt32 := 1024

section Indices

/-- `flow_is_pow2` on its 64 bit word. -/
def isPow2Word (n : UInt64) : Bool := decide (n ≠ 0 ∧ n &&& (n - 1) = 0)

/-- The wrap the scans write by hand: a mask where the hoisted test found a power of two. -/
def maskOrMod (pow2 : Bool) (base : UInt64) (n : UInt32) : UInt32 :=
  if pow2 then (base &&& (n.toUInt64 - 1)).toUInt32 else (base % n.toUInt64).toUInt32

/-- `flow_wrap_idx` on its words. -/
def wrapIdxWord (base : UInt64) (n : UInt32) : UInt32 :=
  if n = 0 then 0
  else if isPow2Word n.toUInt64 then (base &&& (n.toUInt64 - 1)).toUInt32
  else (base % n.toUInt64).toUInt32

/-- The start of a scan, one past the cursor: of `flow_ssf_pick`, and of `flow_steal_one`. -/
def scanStart (pow2 : Bool) (cursor n : UInt32) : UInt32 :=
  maskOrMod pow2 (cursor.toUInt64 + 1) n

/-- The start of `flow_bsf_pick`, past the window of the first scan. -/
def bsfStart (pow2 : Bool) (cursor n : UInt32) : UInt32 :=
  maskOrMod pow2 ((scanStart pow2 cursor n).toUInt64 + UInt64.ofNat flowDispatchMaxVisit) n

/-- The peer at one offset from a start. -/
def scanPeer (pow2 : Bool) (start n : UInt32) (idx : UInt32) : UInt32 :=
  maskOrMod pow2 (start.toUInt64 + idx.toUInt64) n

/-- The cursor `flow_select_best` stores, one past its start. -/
def selectNext (pow2 : Bool) (cursor n : UInt32) : UInt32 :=
  maskOrMod pow2 ((scanStart pow2 cursor n).toUInt64 + 1) n

/-- The cursor `flow_dispatch` stores after a steal. -/
def stealNext (cursor n : UInt32) : UInt32 := wrapIdxWord (cursor.toUInt64 + 2) n

end Indices

section Gates

/-- `flow_cpu_units` over the capacity rows, where zero means unknown. -/
def flowCpuUnits (cap : ℕ → UInt32) (cpu : ℕ) : UInt32 :=
  if cpu ≥ flowMaxCpus then flowCapBase else if cap cpu = 0 then flowCapBase else cap cpu

/-- `flow_init`'s seed of the capacity rows. -/
def initCap (n : ℕ) (cap : ℕ → UInt32) : ℕ → UInt32 :=
  fun cpu => if cpu < n ∧ cpu < flowMaxCpus then flowCapBase else cap cpu

def flowCpuMeets (w : World) (cpu : ℕ) (deadline now : UInt64) : Bool :=
  if deadline = 0 then true
  else
    let ready := flowSatAdd now (flowCpuDrain w cpu).1
    flowReadyBefore ready deadline

/-- `struct flow_scan_tail`. -/
structure FlowScanTail where
  ts : TaskStruct
  deadline : UInt64
  now : UInt64
  thisCpu : ℕ
  prevCpu : ℤ
  cursor : UInt32

/-- The three gates both scans open with: not the waker, live and allowed, and in time. -/
def scanGate (w : World) (t : FlowScanTail) (peer : ℕ) : Bool :=
  if peer = t.thisCpu then false
  else if !flowCpuOk w t.ts peer then false
  else if !flowCpuMeets w peer t.deadline t.now then false
  else true

/-- The tie on the minimum: the previous CPU first, then the lower id. -/
def tieWins (prevCpu : ℤ) (peer best : ℕ) : Bool :=
  let peerPrev := decide ((peer : ℤ) = prevCpu)
  let bestPrev := decide ((best : ℤ) = prevCpu)
  if peerPrev && !bestPrev then true
  else if !peerPrev && bestPrev then false
  else if peer ≥ best then false
  else true

end Gates

/-- What a scan has found, `none` for its `0xffffffffU`, with the CPUs it came to. -/
structure ScanState (α : Type) where
  best : Option α
  visited : List ℕ

section Scan
variable {α : Type}

/-- One peer: past the gates it is weighed against the best so far. -/
def scanVisit (gate : ℕ → Bool) (take : Option α → ℕ → α) (s : ScanState α) (peer : ℕ) :
    ScanState α :=
  let s := { s with visited := s.visited ++ [peer] }
  if !gate peer then s else { s with best := some (take s.best peer) }

/-- The body of a loop at one offset: true stops it, past the host count. -/
def scanStep (visit : ScanState α → ℕ → ScanState α) (pow2 : Bool) (start n idx : UInt32)
    (s : ScanState α) : ScanState α × Bool :=
  if idx.toUInt64 ≥ n.toUInt64 then (s, true)
  else (visit s (scanPeer pow2 start n idx).toNat, false)

/-- The loop of a scan from a start on the host, empty past the bounds of the host count. -/
def scanLoop (w : World) (startOf : Bool → UInt32 → UInt32)
    (step : Bool → UInt32 → UInt32 → UInt32 → ScanState α → ScanState α × Bool) (count : ℕ) :
    ScanState α :=
  if w.nrCpuIds ≤ 1 ∨ w.nrCpuIds > flowMaxCpus then ⟨none, []⟩
  else
    let n := UInt32.ofNat w.nrCpuIds
    let pow2 := isPow2Word n.toUInt64
    let start := startOf pow2 n
    Loop.calls (fun idx => step pow2 start n (UInt32.ofNat idx)) count ⟨none, []⟩

end Scan

section Slowest

/-- The best of `struct flow_ssf_iter`. -/
structure SsfBest where
  cpu : ℕ
  units : UInt32
  min : UInt64
  isLocal : Bool
  deriving DecidableEq

/-- `flow_ssf_step` past its gates: a sufficient peer against the best so far. -/
def ssfTake (prevCpu : ℤ) (best : Option SsfBest) (peer : SsfBest) : SsfBest :=
  match best with
  | none => peer
  | some b =>
    if peer.units.toUInt64 + 64 < b.units.toUInt64 then peer
    else if peer.units.toUInt64 > b.units.toUInt64 + 64 then b
    else
      -- the lower capacity stays the reference, whichever CPU holds it
      let units := if peer.units < b.units then peer.units else b.units
      if peer.isLocal && !b.isLocal then { peer with units := units }
      else if !peer.isLocal && b.isLocal then b
      else if !flowTimeBefore peer.min b.min && decide (peer.min ≠ b.min) then b
      else if decide (peer.min = b.min) && !tieWins prevCpu peer.cpu b.cpu then b
      else { peer with units := units }

/-- The row of a peer as `flow_ssf_step` reads it. -/
def ssfRow (w : World) (cap : ℕ → UInt32) (t : FlowScanTail) (peer : ℕ) : SsfBest where
  cpu := peer
  units := flowCpuUnits cap peer
  min := flowCpuMin w peer
  isLocal := decide (flowCpuNode w peer = flowCpuNode w t.thisCpu)

/-- The visit of one peer by `flow_ssf_step`. -/
def ssfVisit (w : World) (cap : ℕ → UInt32) (t : FlowScanTail) :
    ScanState SsfBest → ℕ → ScanState SsfBest :=
  scanVisit (scanGate w t) fun best peer => ssfTake t.prevCpu best (ssfRow w cap t peer)

def flowSsfStep (w : World) (cap : ℕ → UInt32) (t : FlowScanTail) :
    Bool → UInt32 → UInt32 → UInt32 → ScanState SsfBest → ScanState SsfBest × Bool :=
  scanStep (ssfVisit w cap t)

/-- The loop of `flow_ssf_pick`. -/
def ssfScan (w : World) (cap : ℕ → UInt32) (t : FlowScanTail) : ScanState SsfBest :=
  scanLoop w (fun pow2 n => scanStart pow2 t.cursor n) (flowSsfStep w cap t) flowDispatchMaxVisit

def flowSsfPick (w : World) (cap : ℕ → UInt32) (t : FlowScanTail) : Option ℕ :=
  (ssfScan w cap t).best.map SsfBest.cpu

end Slowest

section Best

/-- The best of `struct flow_bsf_iter`. -/
structure BsfBest where
  cpu : ℕ
  drain : UInt64
  min : UInt64
  deriving DecidableEq

/-- `flow_bsf_step` past its gates. -/
def bsfTake (prevCpu : ℤ) (best : Option BsfBest) (peer : BsfBest) : BsfBest :=
  match best with
  | none => peer
  | some b =>
    if peer.drain < b.drain then peer
    else if peer.drain ≠ b.drain then b
    else if decide (peer.min ≠ b.min) && !flowTimeBefore peer.min b.min then b
    else if decide (peer.min = b.min) && !tieWins prevCpu peer.cpu b.cpu then b
    else { b with cpu := peer.cpu, min := peer.min }

/-- The row of a peer as `flow_bsf_step` reads it. -/
def bsfRow (w : World) (peer : ℕ) : BsfBest where
  cpu := peer
  drain := (flowCpuDrain w peer).1
  min := flowCpuMin w peer

/-- The visit of one peer by `flow_bsf_step`. -/
def bsfVisit (w : World) (t : FlowScanTail) : ScanState BsfBest → ℕ → ScanState BsfBest :=
  scanVisit (scanGate w t) fun best peer => bsfTake t.prevCpu best (bsfRow w peer)

def flowBsfStep (w : World) (t : FlowScanTail) :
    Bool → UInt32 → UInt32 → UInt32 → ScanState BsfBest → ScanState BsfBest × Bool :=
  scanStep (bsfVisit w t)

/-- The loop of `flow_bsf_pick`. -/
def bsfScan (w : World) (t : FlowScanTail) : ScanState BsfBest :=
  scanLoop w (fun pow2 n => bsfStart pow2 t.cursor n) (flowBsfStep w t) flowBsfMaxPeers

def flowBsfPick (w : World) (t : FlowScanTail) : Option ℕ := (bsfScan w t).best.map BsfBest.cpu

end Best

section TwoScans

/-- What select writes: the waker's cursor, and the reject count. -/
inductive SelectEffect
  | storeCursor (cpu : ℕ) (next : UInt32)
  | gateReject
  deriving DecidableEq

/-- The cursor `flow_select_best` reads, zero without a row. -/
def selectCursor (w : World) (thisCpu : ℕ) : UInt32 :=
  match flowCpu w thisCpu with
  | none => 0
  | some wst => wst.cursor

/-- The scan arguments `flow_select_best` hoists. -/
def selectTail (w : World) (ts : TaskStruct) (deadline now : UInt64) (thisCpu : ℕ) (prevCpu : ℤ) :
    FlowScanTail :=
  ⟨ts, deadline, now, thisCpu, prevCpu, selectCursor w thisCpu⟩

/-- The store of the next cursor, where the waker has a row. -/
def selectStore (w : World) (thisCpu : ℕ) : List SelectEffect :=
  let n := UInt32.ofNat w.nrCpuIds
  let next := selectNext (isPow2Word n.toUInt64) (selectCursor w thisCpu) n
  if (flowCpu w thisCpu).isSome then [.storeCursor thisCpu next] else []

/-- `flow_select_best`: the pick, `none` for `0xffffffffU`, and its store. -/
def flowSelectBest (w : World) (cap : ℕ → UInt32) (ts : TaskStruct) (deadline now : UInt64)
    (thisCpu : ℕ) (prevCpu : ℤ) : Option ℕ × List SelectEffect :=
  let tail := selectTail w ts deadline now thisCpu prevCpu
  if w.nrCpuIds ≤ 1 ∨ w.nrCpuIds > flowMaxCpus then (none, [])
  else
    match flowSsfPick w cap tail with
    | some best => (some best, selectStore w thisCpu)
    | none =>
      match flowBsfPick w tail with
      | some bsf => (some bsf, selectStore w thisCpu)
      | none => (none, [])

end TwoScans

section Op

/-- The tail the pinned pick and the scan share: the first allowed CPU, else the previous one with
a reject counted. -/
def selectFirst (w : World) (k : Kernel) (p : TaskRef) (prevCpu : ℤ) : ℤ × List SelectEffect :=
  let first := k.cpumaskFirst p
  if flowCpuOk w (k.task p) first then (first, []) else (prevCpu, [.gateReject])

def flowSelectScan (w : World) (cap : ℕ → UInt32) (k : Kernel) (p : TaskRef) (prevCpu : ℤ)
    (deadline : UInt64) (thisCpu : ℕ) : ℤ × List SelectEffect :=
  let ts := k.task p
  let now := k.now
  if flowCpuOk w ts prevCpu && flowCpuMeets w prevCpu.toNat deadline now then (prevCpu, [])
  else
    match flowSelectBest w cap ts deadline now thisCpu prevCpu with
    | (some best, es) => (best, es)
    | (none, es) =>
      if flowCpuOk w ts prevCpu then (prevCpu, es)
      else
        let o := selectFirst w k p prevCpu
        (o.1, es ++ o.2)

def flowSelectPinnedCpu (w : World) (k : Kernel) (p : TaskRef) (prevCpu : ℤ) :
    ℤ × List SelectEffect :=
  let ts := k.task p
  let here := ts.taskCpu
  if flowCpuOk w ts here then (here, [])
  else if flowCpuOk w ts prevCpu then (prevCpu, [])
  else selectFirst w k p prevCpu

def flowSelectIdleProbe (w : World) (k : Kernel) (p : TaskRef) (thisCpu : ℕ) : ℤ :=
  let ts := k.task p
  if flowCpuOk w ts thisCpu && cpuIdle w thisCpu then thisCpu
  else
    let picked := k.pickIdleCpu p
    if picked ≥ 0 ∧ flowCpuOk w ts picked then picked else -1

def flowSelectCpu (w : World) (cap : ℕ → UInt32) (k : Kernel) (p : TaskRef) (prevCpu : ℤ) :
    ℤ × List SelectEffect :=
  let ts := k.task p
  let thisCpu := k.smpCpu
  if ts.migrationDisabled then flowSelectPinnedCpu w k p prevCpu
  else if ts.nrCpusAllowed = 1 then flowSelectPinnedCpu w k p prevCpu
  else
    let idle := flowSelectIdleProbe w k p thisCpu
    if idle ≥ 0 then (idle, [])
    else
      let deadline := match w.taskCtx p with
        | none => 0
        | some tctx => tctx.deadline
      if deadline = 0 ∧ flowCpuOk w ts prevCpu then (prevCpu, [])
      else flowSelectScan w cap k p prevCpu deadline thisCpu

/-- The state after the writes of select. -/
def World.select (w : World) (k : Kernel) (es : List SelectEffect) : World :=
  es.foldl (fun w e =>
    match e with
    | .storeCursor cpu next => w.setCpu cpu { w.cpuState cpu with cursor := next }
    | .gateReject => flowCount w k .gateRejects 1) w

end Op

end ScxFlow
