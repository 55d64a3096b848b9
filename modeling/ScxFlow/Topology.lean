import ScxFlow.CpuList
import ScxFlow.Snapshot

/-!
# The topology view

`topology.rs` builds one row for each online CPU, from the `Topology` of `scx_utils` or, where that
fails or is empty, from the lists of sysfs.  What these two sources answer is a parameter.  The texts
of the start log and the SMT flag of the page are read off the rows.
-/

namespace ScxFlow

/-- `NODE_BOUND`. -/
@[simp] def nodeBound : ℕ := 16

/-- `u32::MAX`, the sibling of a CPU alone on its core. -/
def noSibling : UInt32 := 0xffffffff

/-- What the loader reads of `scx_utils::Topology`. -/
structure HostTopology where
  /-- The online ids, as the mask iterates them. -/
  span : List ℕ
  siblingCpus : List ℤ
  /-- The `node_id` of a CPU of `all_cpus`. -/
  nodeId : ℕ → Option ℕ
  /-- The CPUs of each LLC of `all_llcs`. -/
  llcs : List (List ℕ)

/-- The files of sysfs the fallback reads.  A file that cannot be read has no text. -/
structure Sysfs where
  cpuOnline : Option String
  threadSiblingsList : ℕ → Option String
  /-- The names in the directory of a CPU. -/
  cpuDir : ℕ → Option (List String)
  nodeOnline : Option String
  nodeCpulist : ℕ → Option String

def HostTopology.sibling (t : HostTopology) (cpu : UInt32) : UInt32 :=
  let known := t.siblingCpus[cpu.toNat]?.filter fun s => decide (s ≥ 0)
  let other := (known.map fun s => UInt32.ofNat s.toNat).filter fun s => decide (s ≠ cpu)
  other.getD noSibling

/-- A node past the bound is node zero. -/
def capNode (node : UInt32) : UInt32 := if node.toNat < nodeBound then node else 0

def HostTopology.node (t : HostTopology) (cpu : UInt32) : UInt32 :=
  capNode (((t.nodeId cpu.toNat).map UInt32.ofNat).getD 0)

def HostTopology.rows (t : HostTopology) : List TopoRow :=
  let online := (t.span.map UInt32.ofNat).mergeSort (· ≤ ·)
  (online.filter fun cpu => decide (cpu.toNat < cpuBound)).map fun cpu =>
    ⟨cpu, t.sibling cpu, t.node cpu⟩

section Fallback

def threadSibling (fs : Sysfs) (cpu : ℕ) : Option ℕ :=
  (readCpuListFile (fs.threadSiblingsList cpu)).find? fun id => decide (id ≠ cpu)

def nodeFromCpulists (fs : Sysfs) (cpu : ℕ) : Option ℕ :=
  (readCpuListFile fs.nodeOnline).find? fun node =>
    (readCpuListFile (fs.nodeCpulist node)).contains cpu

/-- The node a name in a CPU's directory links to. -/
def nodeLink (name : String) : Option ℕ :=
  match name.toList.dropPrefix? ['n', 'o', 'd', 'e'] with
  | none => none
  | some suffix => if suffix = [] then none else parseU32 suffix

def cpuNode (fs : Sysfs) (cpu : ℕ) : Option ℕ :=
  match (fs.cpuDir cpu).bind fun names => names.findSome? nodeLink with
  | some node => some node
  | none => nodeFromCpulists fs cpu

def fallbackRows (fs : Sysfs) : List TopoRow :=
  (readCpuListFile fs.cpuOnline).map fun cpu =>
    ⟨UInt32.ofNat cpu, ((threadSibling fs cpu).map UInt32.ofNat).getD noSibling,
      capNode (((cpuNode fs cpu).map UInt32.ofNat).getD 0)⟩

/-- `init_topology`, which `topo_rows` returns. -/
def initTopology (topo : Option HostTopology) (fs : Sysfs) : List TopoRow :=
  match topo with
  | none => fallbackRows fs
  | some t => if t.rows ≠ [] then t.rows else fallbackRows fs

/-- `is_smt_thread`. -/
def isSmtThread (cpu sib : UInt32) : Bool := decide (sib ≠ noSibling ∧ sib < cpu)

/-- The ids with commas between. -/
def joinIds (ids : List ℕ) : String :=
  String.ofList ([','].intercalate ((ids.mergeSort (· ≤ ·)).map (Nat.toDigits 10)))

def writePrimaryBitmap (rows : List TopoRow) : String := joinIds (rows.map fun row => row.cpu.toNat)

/-- `write_llc_bitmaps`: no text where the shared view fails. -/
def writeLlcBitmaps (topo : Option HostTopology) : List String :=
  match topo with
  | none => []
  | some t => (t.llcs.map joinIds).mergeSort (· ≤ ·)

def describeTopology (topo : Option HostTopology) (rows : List TopoRow) : String :=
  let llcs := writeLlcBitmaps topo
  if llcs = [] then s!"cpus={rows.length} seeded"
  else s!"cpus={rows.length} seeded primary=[{writePrimaryBitmap rows}] llcs={llcs.length}"

end Fallback

end ScxFlow
