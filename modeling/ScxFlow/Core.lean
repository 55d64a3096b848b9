import ScxFlow.Select
import ScxFlow.Snapshot
import ScxFlow.System

/-!
# The core around the ops

The ops of the scheduler do not run alone: the kernel calls select before a wakeup's enqueue, runs
the head of a CPU's terminal queue and takes tasks off queues, and the loader seeds the topology
again after a resume.  A run of the core is any order of these turns and the ops.
-/

namespace ScxFlow

/-- One turn of the whole. -/
inductive Turn
  | call (c : Call)
  | select (k : Kernel) (cap : ℕ → UInt32) (p : TaskRef) (prevCpu : ℤ)
  /-- The loader stores the rows it discovered. -/
  | seed (rows : List TopoRow)
  /-- The kernel takes the head of a CPU's terminal queue to run it. -/
  | pick (cpu : ℕ)
  /-- The kernel takes a task off the queue it is linked on.  `flow_dequeue` does nothing to that. -/
  | dequeue (p : TaskRef) (dsq : ℕ)

def World.pick (w : World) (cpu : ℕ) : World :=
  w.setDsq (scxLocalOn cpu) (w.dsq (scxLocalOn cpu)).tail

def World.dequeue (w : World) (p : TaskRef) (dsq : ℕ) : World :=
  w.setDsq dsq ((w.dsq dsq).eraseP fun e => decide (e.task = p))

def World.turn (w : World) : Turn → World
  | .call c => w.step c
  | .select k cap p prevCpu => w.select k (flowSelectCpu w cap k p prevCpu).2
  | .seed rows => seedTopoWith w rows
  | .pick cpu => w.pick cpu
  | .dequeue p dsq => w.dequeue p dsq

/-- The scheduler with the kernel and the loader around it, logging the ops on a task. -/
def core : Machine World Turn Done where
  step := World.turn
  out w t := match t with
    | .call c => system.out w c
    | _ => []

/-- A run of ops is a run of the core. -/
theorem core_exec_calls (w : World) (cs : List Call) :
    core.exec w (cs.map .call) = system.exec w cs ∧ core.log w (cs.map .call) = system.log w cs := by
  induction cs generalizing w with
  | nil => exact ⟨rfl, rfl⟩
  | cons c cs ih =>
    obtain ⟨hexec, hlog⟩ := ih (w.step c)
    refine ⟨hexec, ?_⟩
    rw [List.map_cons, Machine.log_cons, Machine.log_cons]
    exact congrArg (system.out w c ++ ·) hlog

end ScxFlow
