import ScxFlow.World

/-!
# The counters the daemon reports

The loop of `main.rs` keeps a list of online CPUs, answers a poll with the sums of their rows
(`snapshot.rs`), and replaces the list where a resume finds other rows (`topology.rs`).  A reader of
the stats server reports each answer as its difference to the one before (`stats.rs`).
-/

namespace ScxFlow

section TopoRows

/-- One row of the topology view: a CPU, its thread sibling and its node. -/
structure TopoRow where
  cpu : UInt32
  sib : UInt32
  node : UInt32
  deriving DecidableEq

/-- What `struct Scheduler` keeps for its polls and its reseeds. -/
structure Scheduler where
  onlineCpus : List UInt32
  seeded : List TopoRow

/-- `reseed_if_changed`: the rows discovered now, if they are not the ones held. -/
def reseedIfChanged (prev next : List TopoRow) : Option (List TopoRow) :=
  if prev = next then none else some next

/-- `seed_topo_with`, the node column.  An update past the map's bound fails and is passed over. -/
def seedTopoWith (w : World) (rows : List TopoRow) : World :=
  rows.foldl (fun w row =>
    if row.cpu.toNat ≥ flowMaxCpus then w
    else { w with topoNode := Function.update w.topoNode row.cpu.toNat row.node.toNat }) w

/-- The reseed of `run`, where the rows discovered are `next`. -/
def Scheduler.reseed (s : Scheduler) (w : World) (next : List TopoRow) : Scheduler × World :=
  match reseedIfChanged s.seeded next with
  | none => (s, w)
  | some rows => (⟨rows.map TopoRow.cpu, rows⟩, seedTopoWith w rows)

end TopoRows

section Poll

/-- `struct Metrics`: two gauges, the dead rejects, and the counters of the rows. -/
structure Metrics where
  onCpu : UInt64
  uptimeNs : UInt64
  rejects : UInt64
  counters : FlowSchedStats

/-- `read_stats`.  The map is an array, so every row below its bound is found. -/
def readStats (w : World) (cpu : ℕ) : FlowSchedStats :=
  if cpu ≥ flowMaxCpus then fun _ => 0 else w.cpuStats cpu

def readCpu (w : World) (cpu : ℕ) : FlowCpuState :=
  if cpu ≥ flowMaxCpus then ⟨0, 0, 0⟩ else w.cpuState cpu

def countOnCpu (w : World) (onlineCpus : List UInt32) : UInt64 :=
  onlineCpus.foldl (fun live id =>
    if (readCpu w id.toNat).runningPid ≠ 0 then flowSatAdd live 1 else live) 0

/-- `get_metrics`, `elapsed` nanoseconds after the start.  Rust's `saturating_add` is the sum of
`flow_sat_add`. -/
def getMetrics (w : World) (s : Scheduler) (elapsed : ℕ) : Metrics where
  onCpu := countOnCpu w s.onlineCpus
  uptimeNs := UInt64.ofNat (min elapsed u64Max.toNat)
  rejects := 0
  counters c := s.onlineCpus.foldl (fun sum id => flowSatAdd sum (readStats w id.toNat c)) 0

/-- The difference to an earlier answer, with wrapping subtraction; the gauges pass through. -/
def Metrics.delta (cur rhs : Metrics) : Metrics where
  onCpu := cur.onCpu
  uptimeNs := cur.uptimeNs
  rejects := cur.rejects - rhs.rejects
  counters c := cur.counters c - rhs.counters c

end Poll

end ScxFlow
