import ScxFlow.Dispatch

/-!
# Attaching, and the queues the ops touch

`flow_init` of `main.bpf.c` counts the CPUs and the nodes and creates the queues.  Below it stand
the drain of `edf.bpf.c` and, for the steal and the pass, the ids they poll or iterate: the kernel
aborts the scheduler on an id that was never created.
-/

namespace ScxFlow

section Init

@[simp] def flowMaxDsqs : ℕ := 1042

/-- What the kernel answers `flow_init`. -/
structure InitView where
  nrCpuIds : ℕ
  /-- The return value of `scx_bpf_create_dsq`. -/
  createDsq : ℕ → ℤ

def flowTopoNodeOk (node : ℕ) : Bool := decide (node < flowMaxNodes)

/-- One row of the node scan.  The highest valid node so far stands for `hi` and `seen`. -/
def initNode (topoNode : ℕ → ℕ) (hi : Option ℕ) (cpu : ℕ) : Option ℕ :=
  let nd := topoNode cpu
  if !flowTopoNodeOk nd then hi
  else
    match hi with
    | none => some nd
    | some h => if nd > h then some nd else some h

/-- The node count of the seeded view of `n` CPUs. -/
def initNodes (topoNode : ℕ → ℕ) (n : ℕ) : ℕ :=
  let want := match (List.range n).foldl (initNode topoNode) none with
    | none => 1
    | some hi => hi + 1
  let want := if want < 1 then 1 else want
  if want > flowMaxNodes then flowMaxNodes else want

/-- The queues `flow_init` creates, in its order. -/
def initQueues (n nodes : ℕ) : List ℕ :=
  let nn := if nodes > flowMaxNodes then flowMaxNodes else nodes
  (List.range n).map flowLocalDsq ++ (List.range nn).map flowNodeDsq
    ++ [flowMachineDsq, flowOverflowDsq]

/-- One create, which may find the queue in place: `-EINVAL` on a bad id, and all of the kernel's
errors but `-EEXIST`. -/
def initCreate (v : InitView) (dsq : ℕ) : Except ℤ ℕ :=
  if !flowDsqValid dsq then .error (-22)
  else
    let ret := v.createDsq dsq
    if ret < 0 ∧ ret ≠ -17 then .error ret else .ok dsq

/-- `flow_init`: the state it leaves, with the queues it created.  `-E2BIG` is over a bound. -/
def flowInit (w : World) (v : InitView) : Except ℤ (World × List ℕ) :=
  let n := v.nrCpuIds
  if n > flowMaxCpus then .error (-7)
  else if n = 0 then .error (-22)
  else
    let want := initNodes w.topoNode n
    if n + want + 2 > flowMaxDsqs then .error (-7)
    else
      let cpuState := fun cpu =>
        if cpu < n then ⟨0, UInt32.ofNat cpu, 0⟩ else w.cpuState cpu
      let w := { w with nrCpuIds := n, nrNodeIds := want, cpuState := cpuState }
      ((initQueues n want).mapM (initCreate v)).map fun made => (w, made)

def flowDrainNs (w : World) (dsq : ℕ) : UInt64 := flowDrainFromQ (nrQueued w dsq)

/-- `flow_cpu_drain`, with the queues it polls.  Its callers pass CPUs that `flow_cpu_ok` took. -/
def flowCpuDrain (w : World) (cpu : ℕ) : UInt64 × List ℕ :=
  let localNs := flowDrainNs w (flowLocalDsq cpu)
  let node := flowCpuNode w cpu
  if node < flowMaxNodes ∧ node < w.nrNodeIds then
    (flowSatAdd localNs (flowDrainNs w (flowNodeDsq node)), [flowLocalDsq cpu, flowNodeDsq node])
  else (flowSatAdd localNs 0, [flowLocalDsq cpu])

end Init

section StealIds

/-- The poll of one offset of the peer loop, where `stealPeer` comes to it. -/
def stealPeerPoll (w : World) (cpu : ℤ) (visits window start : ℕ) (f : StealPeers) (off : ℕ) :
    List ℕ :=
  if off ≥ window then []
  else if visits ≥ flowDispatchMaxVisit then []
  else if f.localPeer.isSome && f.remotePeer.isSome then []
  else
    let peer := flowWrapIdx (start + off) w.nrCpuIds
    if (peer : ℤ) = cpu then []
    else if !flowCpuLive w peer then []
    else [flowLocalDsq peer]

/-- The peer loop with the ids polled so far. -/
def stealPolled (w : World) (cpu : ℤ) (visits window start : ℕ) (f : StealPeers × List ℕ)
    (off : ℕ) : StealPeers × List ℕ :=
  (stealPeer w cpu visits window start f.1 off,
    f.2 ++ stealPeerPoll w cpu visits window start f.1 off)

/-- The ids `flow_steal_one` polls.  It iterates the queue of one peer it polled. -/
def flowStealPolls (w : World) (cpu : ℤ) (visits cursor : ℕ) : List ℕ :=
  if cpu < 0 then []
  else if !flowCpuLive w cpu.toNat then []
  else if visits ≥ flowDispatchMaxVisit then []
  else if w.nrCpuIds ≤ 1 ∨ w.nrCpuIds > flowMaxCpus then []
  else
    let start := flowWrapIdx (cursor + 1) w.nrCpuIds
    ((List.range flowStealMaxPeers).foldl
      (stealPolled w cpu visits (stealWindow w cpu visits) start) (⟨none, none⟩, [])).2

end StealIds

section PassIds

/-- The queue one tier move iterates. -/
def tierTouches (dsq : ℕ) (queued : ℤ) (s : Pass) : List ℕ :=
  if s.left ≠ 0 ∧ s.visits < flowDispatchMaxVisit then if queued > 0 then [dsq] else [] else []

/-- The reclaim polls the reject queue, and iterates no other. -/
def reclaimTouches (s : Pass) : List ℕ :=
  if s.left ≠ 0 ∧ s.visits < flowDispatchMaxVisit then [flowOverflowDsq] else []

def stealTouches (cpu : ℤ) (d : Depths) (s : Pass) : List ℕ :=
  if s.left ≠ 0 ∧ s.visits < flowDispatchMaxVisit then
    let backlog := d.lq0.toNat + d.nq0.toNat + d.mq0.toNat
    if backlog = 0 then
      let cursor := match flowCpu s.world cpu.toNat with
        | none => cpu.toNat
        | some cst => cst.cursor.toNat
      flowStealPolls s.world cpu s.visits cursor
    else []
  else []

/-- The ids the stages of a pass touch, each in the state the stages before it left. -/
def movesTouches (k : Kernel) (cpu : ℤ) (node : ℕ) (d : Depths) (s : Pass) : List ℕ :=
  let q1Only := decide (d.lq0 > 0 ∧ d.nq0 ≤ 0 ∧ d.mq0 ≤ 0)
  if q1Only && decide (s.left ≠ 0 ∧ s.visits < flowDispatchMaxVisit) then
    tierTouches (flowLocalDsq cpu.toNat) d.lq0 s
  else
    let s₁ := flowDispatchLocal k cpu d s
    let s₂ := flowDispatchNodeTier k cpu node d s₁
    let s₃ := flowDispatchMachine k cpu d s₂
    let s₄ := flowDispatchReclaim k cpu d s₃
    tierTouches (flowLocalDsq cpu.toNat) d.lq0 s ++ tierTouches (flowNodeDsq node) d.nq0 s₁
      ++ tierTouches flowMachineDsq d.mq0 s₂ ++ reclaimTouches s₃ ++ stealTouches cpu d s₄

/-- The ids `flow_dispatch` polls or iterates.  The four depths come before the slots. -/
def flowDispatchTouches (w : World) (k : Kernel) (cpu : ℤ) : List ℕ :=
  if cpu < 0 then []
  else if !flowCpuLive w cpu.toNat then []
  else
    let node := flowDispatchNode w cpu.toNat
    let d := flowDispatchDepths w cpu.toNat
    [flowLocalDsq cpu.toNat, scxLocalOn cpu.toNat, flowNodeDsq node, flowMachineDsq]
      ++ if k.nrSlots = 0 then [] else movesTouches k cpu node d (Pass.start w k.nrSlots)

end PassIds

end ScxFlow
