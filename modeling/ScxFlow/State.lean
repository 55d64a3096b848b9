import Mathlib.Data.UInt
import Mathlib.Order.Basic

/-!
# The constants and the records of the scheduler

The constants of `intf.h` and the rows its maps hold.  Times, service and shares are the machine
words the source declares; CPU ids, node ids, queue ids and queue depths are numbers.
-/

namespace ScxFlow

section Constants

/-- `(u64)~0ULL`, the value every saturating sum clamps to. -/
@[simp] def u64Max : UInt64 := 0xffffffffffffffff

@[simp] def flowQuantumNs : UInt64 := 1000000
@[simp] def flowSliceMinNs : UInt64 := 10000
@[simp] def flowSliceUllNs : UInt64 := 50000
@[simp] def flowSliceLlNs : UInt64 := 100000
@[simp] def flowSliceMllNs : UInt64 := 500000
@[simp] def flowSliceNlNs : UInt64 := 1000000
@[simp] def flowSliceEnlNs : UInt64 := 5000000
@[simp] def flowSliceMaxNs : UInt64 := 20000000
@[simp] def flowSliceLatNs : UInt64 := 100000
@[simp] def flowPeriodNs : UInt64 := 80000000
@[simp] def flowPredMinNs : UInt64 := 1
@[simp] def flowPredMaxNs : UInt64 := 1000000000
@[simp] def flowWeightMin : UInt64 := 1
@[simp] def flowWeightBase : UInt64 := 128
@[simp] def flowWeightMax : UInt64 := 16384
@[simp] def flowResumeGapNs : UInt64 := 5000000000
@[simp] def flowPreemptMarginNs : UInt64 := 100000
@[simp] def flowPreemptTailNs : UInt64 := 100000
@[simp] def flowVlagMaxNs : UInt64 := 2000000
@[simp] def flowRedEmaxNs : UInt64 := 256000
@[simp] def flowRedTolNs : UInt64 := 64000
@[simp] def flowAdaptPropMaxNs : UInt64 := 1000000
@[simp] def flowAdaptDeadbandMinNs : UInt64 := 8000
@[simp] def flowLatSleepMinNs : UInt64 := 20000
@[simp] def flowDLatNs : UInt64 := 4000000
@[simp] def flowCpuPerfHalf : UInt32 := 512
@[simp] def flowCpuPerfMax : UInt32 := 1024

@[simp] def flowMaxCpus : ℕ := 1024
@[simp] def flowMaxNodes : ℕ := 16
@[simp] def flowLocalBase : ℕ := 0x5100
@[simp] def flowNodeBase : ℕ := 0x5900
@[simp] def flowMachine : ℕ := 0x5A00
@[simp] def flowOverflow : ℕ := 0x5A01
@[simp] def flowDispatchMaxVisit : ℕ := 8
@[simp] def flowStealMinPeers : ℕ := 4
@[simp] def flowStealMaxPeers : ℕ := 8

/-- The kernel's `SCX_DSQ_LOCAL_ON`, to be or-ed with a CPU id. -/
def scxDsqLocalOn : ℕ := 0xC000000000000000
def scxEnqPreempt : UInt64 := 0x100000000
def scxEnqReenq : UInt64 := 0x10000000000
def scxEnqLast : UInt64 := 0x20000000000

end Constants

section Records

/-- `struct flow_task_ctx`, the per task state. -/
structure FlowTaskCtx where
  vruntime : UInt64
  deadline : UInt64
  waitAt : UInt64
  runAt : UInt64
  hintW : UInt32
  avgNs : UInt32
  devNs : UInt32
  vlag : Int32
  weight : UInt32
  sliceNs : UInt32
  hintUs : UInt32
  misses : UInt32
  adaptMiss : UInt16
  adaptSat : UInt16
  adaptDelta : UInt32
  deriving DecidableEq

/-- What task storage holds right after a create: zeroed memory. -/
def FlowTaskCtx.zero : FlowTaskCtx :=
  ⟨0, 0, 0, 0, 0, 0, 0, 0, 0, 0, 0, 0, 0, 0, 0⟩

/-- `struct flow_cpu_state`, the per CPU row. -/
structure FlowCpuState where
  runningPid : UInt32
  cursor : UInt32
  minVruntime : UInt64
  deriving DecidableEq

/-- `struct flow_hint`, one row of the flat hierarchy. -/
structure FlowHint where
  periodUs : UInt32
  weight : UInt32
  deriving DecidableEq

/-- The fields of `struct flow_sched_stats` a BPF op writes. -/
inductive Counter
  | totalRuntime | inserts | requeues | completions | localMoves | nodeMoves | machineMoves
  | kicks | admits | misses | gateRejects | preemptKicks | preemptSkipped | redRejects
  | redReclaims
  deriving DecidableEq

/-- `struct flow_sched_stats`, one row of counters. -/
abbrev FlowSchedStats := Counter → UInt64

end Records

section QueueIds

def flowLocalDsq (cpu : ℕ) : ℕ := flowLocalBase + cpu

def flowNodeDsq (node : ℕ) : ℕ := flowNodeBase + node

def flowMachineDsq : ℕ := flowMachine

def flowOverflowDsq : ℕ := flowOverflow

/-- `SCX_DSQ_LOCAL_ON | cpu`, the terminal queue of one CPU. -/
def scxLocalOn (cpu : ℕ) : ℕ := scxDsqLocalOn ||| cpu

theorem scxLocalOn_ge (cpu : ℕ) : scxDsqLocalOn ≤ scxLocalOn cpu := Nat.left_le_or

theorem scxLocalOn_ne {cpu dsq : ℕ} (h : dsq < scxDsqLocalOn) : dsq ≠ scxLocalOn cpu :=
  (h.trans_le (scxLocalOn_ge cpu)).ne

/-- The four kinds of queues lie apart, in the order a pass drains them. -/
theorem dsq_kinds {c node : ℕ} (hc : c < flowMaxCpus) (hn : node < flowMaxNodes) :
    flowLocalDsq c < flowNodeDsq node ∧ flowNodeDsq node < flowMachineDsq
      ∧ flowMachineDsq < flowOverflowDsq ∧ flowOverflowDsq < scxDsqLocalOn := by
  simp only [flowLocalDsq, flowNodeDsq, flowMachineDsq, flowOverflowDsq, flowLocalBase,
    flowNodeBase, flowMachine, flowOverflow, flowMaxCpus, flowMaxNodes, scxDsqLocalOn] at *
  omega

theorem flowLocalDsq_lt {cpu : ℕ} (h : cpu < flowMaxCpus) : flowLocalDsq cpu < flowMachineDsq := by
  have hkinds := dsq_kinds h (Nat.succ_pos 15)
  omega

theorem flowNodeDsq_lt {node : ℕ} (h : node < flowMaxNodes) :
    flowNodeDsq node < flowMachineDsq :=
  (dsq_kinds (Nat.succ_pos 1023) h).2.1

def flowDsqValid (dsq : ℕ) : Bool :=
  if flowLocalBase ≤ dsq ∧ dsq < flowLocalBase + flowMaxCpus then true
  else if flowNodeBase ≤ dsq ∧ dsq < flowNodeBase + flowMaxNodes then true
  else if dsq = flowMachine then true
  else if dsq = flowOverflow then true
  else false

end QueueIds

end ScxFlow
