import ScxFlow.Enqueue
import ScxFlow.Dispatch
import ScxFlow.Lifecycle
import ScxFlow.Lib.Run

/-!
# The scheduler as one machine

The ops step one `World`; what the kernel shows may change from op to op.  The log of a run holds,
for every op on a task, the view it had and the effects it performed in order.
-/

namespace ScxFlow

/-- The ops of `main.bpf.c` that read or write the modelled state. -/
inductive Op
  | enqueue (p : TaskRef) (enqFlags : UInt64)
  | running (p : TaskRef)
  | stopping (p : TaskRef) (runnable : Bool)
  | enable (p : TaskRef)
  | disable (p : TaskRef)
  | exitTask (p : TaskRef)
  | cpuRelease (cpu : ℤ)
  | dispatch (cpu : ℤ)
  | setWeight (p : TaskRef) (weight : UInt32)
  | cgroupInit (cgrp : Option Cgroup)
  | cgroupExit (cgrp : Option Cgroup)
  | cgroupMove (p : TaskRef) (dst : Option Cgroup)
  | cgroupSetWeight (cgrp : Option Cgroup) (weight : UInt32)

/-- The ops on one task that return its storage with a list of effects. -/
def Op.onTask (w : World) (k : Kernel) : Op → Option (TaskRef × OpOut)
  | .enqueue p enqFlags => some (p, flowEnqueue w k p enqFlags)
  | .running p => some (p, flowRunning w k p)
  | .stopping p runnable => some (p, flowStopping w k p runnable)
  | .enable p => some (p, flowEnable w k p)
  | .disable p => some (p, flowDisable w k p)
  | .exitTask p => some (p, flowExitTask w k p)
  | _ => none

/-- One op under one view of the kernel. -/
structure Call where
  view : Kernel
  op : Op

def World.step (w : World) (c : Call) : World :=
  match c.op.onTask w c.view with
  | some (p, o) => w.commit c.view p o
  | none =>
    match c.op with
    | .cpuRelease cpu => flowCpuRelease w c.view cpu
    | .dispatch cpu => flowDispatch w c.view cpu
    | .setWeight p weight => flowSetWeight w p weight
    | .cgroupInit cgrp => (flowCgroupInit w c.view cgrp).toOption.getD w
    | .cgroupExit cgrp => flowCgroupExit w cgrp
    | .cgroupMove p dst => flowCgroupMove w c.view p dst
    | .cgroupSetWeight cgrp weight => flowCgroupSetWeight w c.view cgrp weight
    | _ => w

theorem World.step_onTask {w : World} {k : Kernel} {op : Op} {p : TaskRef} {o : OpOut}
    (h : op.onTask w k = some (p, o)) : w.step ⟨k, op⟩ = w.commit k p o := by
  unfold World.step
  rw [h]

/-- One op of a run on a task, with its view and its effects. -/
structure Done where
  view : Kernel
  op : Op
  task : TaskRef
  eff : List Effect

/-- The scheduler. -/
def system : Machine World Call Done where
  step := World.step
  out w c := match c.op.onTask w c.view with
    | some (p, o) => [⟨c.view, c.op, p, o.eff⟩]
    | none => []

/-- The state the loader leaves: no task state, no hint rows, no credit, empty queues. -/
def World.boot (nrCpuIds nrNodeIds : ℕ) (topoNode : ℕ → ℕ) : World where
  nrCpuIds := nrCpuIds
  nrNodeIds := nrNodeIds
  taskCtx _ := none
  cpuState _ := ⟨0, 0, 0⟩
  topoNode := topoNode
  hintStor _ := none
  cgrpCache _ := none
  cpuStats _ _ := 0
  perfLast _ := 0
  reclaimCredit := 0
  dsq _ := []

/-- A task that may run anywhere and was last on CPU 0. -/
def TaskStruct.plain (p : TaskRef) : TaskStruct where
  pid := UInt32.ofNat (p + 1)
  exiting := false
  migrationDisabled := false
  nrCpusAllowed := 2
  cpusPtr _ := true
  selectedCpu := 0
  taskCpu := 0
  cgroup := none

/-- The view at `now` on CPU 0 of a kernel whose helpers all succeed. -/
def Kernel.plain (now : UInt64) : Kernel where
  now := now
  smpCpu := 0
  task := TaskStruct.plain
  taskFromPid pid := some (pid.toNat - 1)
  pickIdleCpu _ := 0
  cpumaskFirst _ := 0
  storageRoom := true
  mapRoom := true
  nrSlots := 8
  dsqMove _ _ := true
  cpuperfSet := false
  cpuperfCap := none

/-- The view at `now` of a kernel where the mask of every task holds every CPU or none. -/
def Kernel.masked (now : UInt64) (allowed : Bool) : Kernel :=
  { Kernel.plain now with task := fun p => { TaskStruct.plain p with cpusPtr := fun _ => allowed } }

end ScxFlow
