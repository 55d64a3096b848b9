import ScxFlow.Burst
import Mathlib.Logic.Function.Basic

/-!
# What an op sees and what it leaves

`World` is the scheduler's own state: its maps and its dispatch queues.  `Kernel` is what the
kernel shows one op: the clock, the tasks, the executing CPU and the outcomes of its helpers.  An op
on one task reads both, returns the task's storage, and lists its writes to everything shared in
program order as `Effect`s; `World.run` performs them.
-/

namespace ScxFlow

/-- A `struct task_struct *`. -/
abbrev TaskRef := ℕ

section KernelSide

/-- A `struct cgroup *` past the null test, by the id of its kernfs node, if it has one. -/
structure Cgroup where
  kn : Option UInt64

/-- What the ops read of a `struct task_struct`. -/
structure TaskStruct where
  pid : UInt32
  exiting : Bool
  migrationDisabled : Bool
  nrCpusAllowed : ℕ
  cpusPtr : ℕ → Bool
  selectedCpu : ℤ
  taskCpu : ℤ
  cgroup : Option Cgroup

/-- What the kernel answers during one op. -/
structure Kernel where
  now : UInt64
  smpCpu : ℕ
  task : TaskRef → TaskStruct
  taskFromPid : UInt32 → Option TaskRef
  pickIdleCpu : TaskRef → ℤ
  cpumaskFirst : TaskRef → ℤ
  /-- Whether task storage can be created. -/
  storageRoom : Bool
  /-- Whether a map takes one more key. -/
  mapRoom : Bool
  nrSlots : ℕ
  /-- The outcome of `scx_bpf_dsq_move` for a task iterated from a queue. -/
  dsqMove : ℕ → TaskRef → Bool
  /-- `scx_bpf_cpuperf_set`, when the symbol exists. -/
  cpuperfSet : Bool
  /-- `scx_bpf_cpuperf_cap`, when the symbol exists. -/
  cpuperfCap : Option (ℕ → UInt32)

end KernelSide

section SchedulerSide

/-- One queued task with its key. -/
structure Entry where
  task : TaskRef
  key : UInt64
  deriving DecidableEq

structure World where
  nrCpuIds : ℕ
  nrNodeIds : ℕ
  taskCtx : TaskRef → Option FlowTaskCtx
  cpuState : ℕ → FlowCpuState
  /-- The node column of the topology view. -/
  topoNode : ℕ → ℕ
  hintStor : UInt64 → Option FlowHint
  cgrpCache : UInt32 → Option UInt64
  cpuStats : ℕ → FlowSchedStats
  perfLast : ℕ → UInt32
  reclaimCredit : UInt64
  /-- The tasks of each queue in the order the kernel iterates them. -/
  dsq : ℕ → List Entry

def flowCpuLive (w : World) (cpu : ℕ) : Bool :=
  if cpu ≥ w.nrCpuIds then false else if cpu ≥ flowMaxCpus then false else true

/-- `flow_cpu_ok`: live and inside the task's mask. -/
def flowCpuOk (w : World) (ts : TaskStruct) (cpu : ℤ) : Bool :=
  if cpu < 0 then false
  else if cpu.toNat ≥ w.nrCpuIds then false
  else if cpu.toNat ≥ flowMaxCpus then false
  else ts.cpusPtr cpu.toNat

/-- `flow_entry_ok`, the gate.  A negative CPU passes. -/
def flowEntryOk (w : World) (ts : TaskStruct) (cpu : ℤ) (dsq : ℕ) : Bool :=
  if cpu ≥ 0 ∧ !flowCpuLive w cpu.toNat then false
  else if cpu ≥ 0 ∧ !ts.cpusPtr cpu.toNat then false
  else if dsq ≠ 0 ∧ !flowDsqValid dsq then false
  else true

/-- `flow_cpu`, null past the bound. -/
def flowCpu (w : World) (cpu : ℕ) : Option FlowCpuState :=
  if cpu ≥ flowMaxCpus then none else some (w.cpuState cpu)

def flowCpuNode (w : World) (cpu : ℕ) : ℕ :=
  if cpu ≥ flowMaxCpus then 0
  else if w.topoNode cpu ≥ flowMaxNodes then 0
  else w.topoNode cpu

def flowCpuMin (w : World) (cpu : ℕ) : UInt64 :=
  match flowCpu w cpu with
  | none => 0
  | some st => st.minVruntime

def nrQueued (w : World) (dsq : ℕ) : ℤ := (w.dsq dsq).length

/-- `flow_lookup` and `flow_get`: task storage, created zeroed when it is missing. -/
def flowGet (w : World) (k : Kernel) (p : TaskRef) : Option FlowTaskCtx :=
  match w.taskCtx p with
  | some t => some t
  | none => if k.storageRoom then some FlowTaskCtx.zero else none

end SchedulerSide

section Effects

/-- One write to shared state, or one call into the kernel. -/
inductive Effect
  /-- A saturating add to the executing CPU's stats row. -/
  | count (c : Counter) (n : UInt64)
  | insertVtime (dsq : ℕ) (key enqFlags : UInt64)
  | insert (dsq : ℕ) (enqFlags : UInt64)
  | clearIdle (cpu : ℤ)
  /-- `scx_bpf_kick_cpu` with `SCX_KICK_IDLE`. -/
  | kickIdle (cpu : ℤ)
  /-- `scx_bpf_kick_cpu` with `SCX_KICK_PREEMPT`. -/
  | kickPreempt (cpu : ℤ)
  /-- The exchange that stores the task's deadline, left in the returned storage. -/
  | storeDeadline (deadline : UInt64)
  /-- The swap from zero that claims the segment start, left in the returned storage. -/
  | claimRun (stamp : UInt64)
  /-- The exchange to zero that takes the segment start for one charge of `delta`. -/
  | takeRun (start delta : UInt64)
  /-- A fill of the hierarchy cache. -/
  | cacheFill (pid : UInt32) (id : UInt64)
  | cacheInvalidate (pid : UInt32)
  /-- `flow_running`'s store of the owner of a CPU row. -/
  | setRunning (cpu : ℕ) (pid : UInt32)
  | clearRunningIfOwner (cpu : ℤ) (pid : UInt32)
  | clearRunning (cpu : ℤ)
  | minAdvance (cpu : ℤ) (vruntime : UInt64)
  | creditAdd (delta : UInt64)
  deriving DecidableEq

def World.setCpu (w : World) (cpu : ℕ) (st : FlowCpuState) : World :=
  { w with cpuState := Function.update w.cpuState cpu st }

def World.setDsq (w : World) (dsq : ℕ) (l : List Entry) : World :=
  { w with dsq := Function.update w.dsq dsq l }

/-- A saturating add on the row `flow_stat_row` resolves: out of bound ids have none. -/
def flowCount (w : World) (k : Kernel) (c : Counter) (n : UInt64) : World :=
  if k.smpCpu ≥ flowMaxCpus then w
  else if k.smpCpu ≥ w.nrCpuIds then w
  else if w.cpuStats k.smpCpu c = u64Max then w
  else
    let row := Function.update (w.cpuStats k.smpCpu) c (w.cpuStats k.smpCpu c + n)
    { w with cpuStats := Function.update w.cpuStats k.smpCpu row }

/-- Where the kernel's priority queue puts a new key: behind every key that is not later. -/
def insertByKey (e : Entry) : List Entry → List Entry
  | [] => [e]
  | q :: qs => if flowTimeBefore e.key q.key then e :: q :: qs else q :: insertByKey e qs

/-- `flow_min_advance`, one try of its loop: no other CPU races inside one op. -/
def flowMinAdvance (w : World) (cpu : ℤ) (vruntime : UInt64) : World :=
  if cpu < 0 then w
  else if vruntime = 0 then w
  else if !flowCpuLive w cpu.toNat then w
  else
    let st := w.cpuState cpu.toNat
    let cur := st.minVruntime
    if cur = vruntime then w
    else if !flowTimeBefore cur vruntime then w
    else w.setCpu cpu.toNat { st with minVruntime := vruntime }

def flowClearRunning (w : World) (cpu : ℤ) : World :=
  if cpu < 0 then w
  else if !flowCpuLive w cpu.toNat then w
  else w.setCpu cpu.toNat { w.cpuState cpu.toNat with runningPid := 0 }

def flowClearRunningIfOwner (w : World) (cpu : ℤ) (pid : UInt32) : World :=
  if cpu < 0 then w
  else if pid = 0 then w
  else if !flowCpuLive w cpu.toNat then w
  else if (w.cpuState cpu.toNat).runningPid = pid then
    w.setCpu cpu.toNat { w.cpuState cpu.toNat with runningPid := 0 }
  else w

/-- `flow_credit_add`, one try of its loop. -/
def flowCreditAdd (credit delta : UInt64) : UInt64 :=
  if delta = 0 then credit
  else
    let nxt := flowSatAdd credit delta
    if nxt > flowPredMaxNs then flowPredMaxNs else nxt

/-- An update of the hierarchy cache, which fails on a full map. -/
def World.cacheFill (w : World) (k : Kernel) (pid : UInt32) (id : UInt64) : World :=
  if k.mapRoom || (w.cgrpCache pid).isSome then
    { w with cgrpCache := Function.update w.cgrpCache pid (some id) }
  else w

def flowCgrpCacheInvalidate (w : World) (pid : UInt32) : World :=
  if pid = 0 then w else { w with cgrpCache := Function.update w.cgrpCache pid none }

def World.perform (w : World) (k : Kernel) (p : TaskRef) : Effect → World
  | .count c n => flowCount w k c n
  | .insertVtime dsq key _ => w.setDsq dsq (insertByKey ⟨p, key⟩ (w.dsq dsq))
  | .insert dsq _ => w.setDsq dsq (w.dsq dsq ++ [⟨p, 0⟩])
  | .clearIdle _ | .kickIdle _ | .kickPreempt _ => w
  | .storeDeadline _ | .claimRun _ | .takeRun _ _ => w
  | .cacheFill pid id => w.cacheFill k pid id
  | .cacheInvalidate pid => flowCgrpCacheInvalidate w pid
  | .setRunning cpu pid => w.setCpu cpu { w.cpuState cpu with runningPid := pid }
  | .clearRunningIfOwner cpu pid => flowClearRunningIfOwner w cpu pid
  | .clearRunning cpu => flowClearRunning w cpu
  | .minAdvance cpu vruntime => flowMinAdvance w cpu vruntime
  | .creditAdd delta => { w with reclaimCredit := flowCreditAdd w.reclaimCredit delta }

def World.run (w : World) (k : Kernel) (p : TaskRef) (es : List Effect) : World :=
  es.foldl (fun w e => w.perform k p e) w

/-- What an op on one task returns: its storage and its effects in order. -/
structure OpOut where
  ctx : Option FlowTaskCtx
  eff : List Effect

/-- The state after an op on `p`. -/
def World.commit (w : World) (k : Kernel) (p : TaskRef) (o : OpOut) : World :=
  ({ w with taskCtx := Function.update w.taskCtx p o.ctx }).run k p o.eff

end Effects

end ScxFlow
