import ScxFlow.Insert
import ScxFlow.Lib.Scan

/-!
# The dispatch pass

`flow_dispatch` over the moves of `task_placement.bpf.c` and the reclaim of `dispatch.bpf.c`.  A
pass threads its visits and its slots through the tiers; each walk of a queue is a bounded walk of
its entries in the order the kernel iterates them.  The log of visits is kept for the statements.
-/

namespace ScxFlow

section Pass

/-- One visit: the queue, the entry, and whether the kernel moved it. -/
structure Visit where
  dsq : ℕ
  entry : Entry
  moved : Bool

structure Pass where
  world : World
  visits : ℕ
  log : List Visit
  left : ℕ
  localMoved : ℕ
  nodeMoved : ℕ
  machineMoved : ℕ
  reclaimMoved : ℕ

def Pass.start (w : World) (budget : ℕ) : Pass := ⟨w, 0, [], budget, 0, 0, 0, 0⟩

/-- The kernel moved `e` off a queue, which keeps `rest`, to the terminal queue of `cpu`. -/
def World.dsqMoved (w : World) (dsq cpu : ℕ) (rest : List Entry) (e : Entry) : World :=
  (w.setDsq dsq rest).setDsq (scxLocalOn cpu) (w.dsq (scxLocalOn cpu) ++ [⟨e.task, 0⟩])

/-- The pass after the walk `r` of a queue, which moved the entry it stopped at or not. -/
def Pass.walked (s : Pass) (dsq cpu : ℕ) (r : Scan Entry) (moved : Bool) : Pass :=
  { s with
    visits := s.visits + r.visited.length
    log := s.log ++ (r.seen.map (⟨dsq, ·, false⟩) ++ r.hit.toList.map (⟨dsq, ·, moved⟩))
    world := match r.hit with
      | none => s.world
      | some e => if moved then s.world.dsqMoved dsq cpu r.left e else s.world }

def flowMaskOk (cpu : ℤ) (ts : TaskStruct) : Bool :=
  if cpu < 0 then false else ts.cpusPtr cpu.toNat

/-- `flow_move_candidate`: the mask, then the kernel's move. -/
def flowMoveCandidate (k : Kernel) (dsq : ℕ) (cpu : ℤ) (p : TaskRef) : Bool :=
  if cpu < 0 then false else if !flowMaskOk cpu (k.task p) then false else k.dsqMove dsq p

def flowMoveOneHint (k : Kernel) (dsq : ℕ) (cpu queued : ℤ) (s : Pass) : Pass × ℕ :=
  if cpu < 0 then (s, 0)
  else if !flowCpuLive s.world cpu.toNat then (s, 0)
  else if s.visits ≥ flowDispatchMaxVisit then (s, 0)
  else if queued ≤ 0 then (s, 0)
  else
    let r := Scan.walk (fun e => flowMoveCandidate k dsq cpu e.task)
      (flowDispatchMaxVisit - s.visits) (s.world.dsq dsq)
    (s.walked dsq cpu.toNat r true, if r.hit.isSome then 1 else 0)

end Pass

section Steal

/-- The peers one steal found: the first on the thief's node and the first off it. -/
structure StealPeers where
  localPeer : Option ℕ
  remotePeer : Option ℕ
  deriving DecidableEq

/-- One offset of the peer loop of `flow_steal_one`. -/
def stealPeer (w : World) (cpu : ℤ) (visits window start : ℕ) (f : StealPeers) (off : ℕ) :
    StealPeers :=
  if off ≥ window then f
  else if visits ≥ flowDispatchMaxVisit then f
  else if f.localPeer.isSome && f.remotePeer.isSome then f
  else
    let peer := flowWrapIdx (start + off) w.nrCpuIds
    if (peer : ℤ) = cpu then f
    else if !flowCpuLive w peer then f
    else if nrQueued w (flowLocalDsq peer) ≤ 0 then f
    else if flowCpuNode w peer = flowCpuNode w cpu.toNat then
      if f.localPeer.isNone then { f with localPeer := some peer } else f
    else if f.remotePeer.isNone then { f with remotePeer := some peer }
    else f

/-- The window of a steal after `visits` visits. -/
def stealWindow (w : World) (cpu : ℤ) (visits : ℕ) : ℕ :=
  let remain := if visits ≥ flowDispatchMaxVisit then 0 else flowDispatchMaxVisit - visits
  let window := flowStealMinPeers + remain / 2
  let window := if window < flowStealMinPeers then flowStealMinPeers else window
  let window := if window > flowStealMaxPeers then flowStealMaxPeers else window
  -- a busy thief pays the minimum scan
  match flowCpu w cpu.toNat with
  | none => flowStealMinPeers
  | some st => if st.runningPid ≠ 0 then flowStealMinPeers else window

def flowStealOne (k : Kernel) (cpu : ℤ) (cursor : ℕ) (s : Pass) : Pass × ℕ :=
  let w := s.world
  if cpu < 0 then (s, 0)
  else if !flowCpuLive w cpu.toNat then (s, 0)
  else if s.visits ≥ flowDispatchMaxVisit then (s, 0)
  else if w.nrCpuIds ≤ 1 ∨ w.nrCpuIds > flowMaxCpus then (s, 0)
  else
    let start := flowWrapIdx (cursor + 1) w.nrCpuIds
    let f := (List.range flowStealMaxPeers).foldl
      (stealPeer w cpu s.visits (stealWindow w cpu s.visits) start) ⟨none, none⟩
    match f.localPeer, f.remotePeer with
    | some peer, _ =>
      flowMoveOneHint k (flowLocalDsq peer) cpu (nrQueued w (flowLocalDsq peer)) s
    | none, some peer =>
      flowMoveOneHint k (flowLocalDsq peer) cpu (nrQueued w (flowLocalDsq peer)) s
    | none, none => (s, 0)

end Steal

section Reclaim

/-- `flow_credit_consume`: the cell after the spend, if there was enough. -/
def flowCreditConsume (cell exceed : UInt64) : Option UInt64 :=
  let emax := flowRedEmaxNs
  let need := if exceed ≠ 0 then exceed else emax
  if cell < need then none
  else if cell < emax then none
  else some (cell - need)

structure FlowReclaimTail where
  rctx : FlowTaskCtx
  q : TaskStruct
  cpu : ℤ
  now : UInt64
  credit : UInt64
  tiersEmpty : Bool

def flowReclaimIsAged (waitAt now : UInt64) : Bool :=
  if waitAt = 0 ∨ waitAt = now then false
  else if flowTimeBefore now waitAt then false
  else
    let age := now - waitAt
    decide (age > flowPeriodNs)

/-- The strict key `flow_reclaim_key_ok` rebuilds. -/
def flowReclaimKey (rctx : FlowTaskCtx) (rdl : UInt64) : UInt64 :=
  let eff := flowTaskEffectiveWeight rctx.weight rctx.hintW
  let vd := flowVirtDeadline rctx.vruntime rctx.sliceNs.toUInt64 eff
  flowEdfKey rdl vd

def flowReclaimKeyOk (rctx : FlowTaskCtx) (rdl now : UInt64) : Bool :=
  let rvtime := flowReclaimKey rctx rdl
  if rvtime ≠ now ∧ flowTimeBefore rvtime now then false else true

def flowReclaimEarlySkip (credit : UInt64) (tiersEmpty : Bool) : Bool :=
  if !tiersEmpty && decide (credit < flowRedEmaxNs) then true else false

/-- The exceed of a reject at `now`, which prices its reclaim. -/
def flowReclaimExceed (rctx : FlowTaskCtx) (now : UInt64) : UInt64 :=
  let rtw := if rctx.weight = 0 then flowWeightBase.toUInt32 else rctx.weight
  let reff := flowTaskEffectiveWeight rtw rctx.hintW
  let rcrit := flowIsLat rctx.avgNs.toUInt64 rctx.devNs.toUInt64 rctx.hintUs 0 0 reff
  let rcost := flowRedCost rctx.avgNs.toUInt64 rctx.sliceNs
  flowRedExceed (flowRedResidual rctx.deadline now rcost) (flowRedTol rcrit)

/-- `flow_reclaim_candidate_ok`: the credit cell after its reserve, if the candidate passes. -/
def flowReclaimCandidateOk (cell : UInt64) (t : FlowReclaimTail) : Option UInt64 :=
  let rdl := t.rctx.deadline
  let rcost := flowRedCost t.rctx.avgNs.toUInt64 t.rctx.sliceNs
  let rexc := flowReclaimExceed t.rctx t.now
  let rlax := flowRedLaxity rdl t.now rcost
  if rlax = 0 then none
  else if !t.tiersEmpty && !flowReclaimIsAged t.rctx.waitAt t.now then none
  else if !flowReclaimKeyOk t.rctx rdl t.now then none
  else if !flowMaskOk t.cpu t.q then none
  else
    let funded := flowRedReclaimOk t.credit rexc rlax
    if !t.tiersEmpty && !funded then none
    else if funded then flowCreditConsume cell rexc
    else some cell

/-- What the reject walk tests of one queued task.  A missing state is skipped. -/
def flowReclaimTest (k : Kernel) (w : World) (cpu : ℤ) (tiersEmpty : Bool) (q : TaskRef) :
    Option UInt64 :=
  match w.taskCtx q with
  | none => none
  | some rctx =>
    flowReclaimCandidateOk w.reclaimCredit
      ⟨rctx, k.task q, cpu, k.now, w.reclaimCredit, tiersEmpty⟩

/-- `flow_reject_reclaim_one`.  The walk ends on the first candidate that passes, moved or not. -/
def flowRejectReclaimOne (k : Kernel) (cpu queued : ℤ) (tiersEmpty : Bool) (s : Pass) :
    Pass × ℕ :=
  if cpu < 0 then (s, 0)
  else if !flowCpuLive s.world cpu.toNat then (s, 0)
  else if s.visits ≥ flowDispatchMaxVisit then (s, 0)
  else if queued ≤ 0 then (s, 0)
  else if flowReclaimEarlySkip s.world.reclaimCredit tiersEmpty then (s, 0)
  else
    let r := Scan.walk (fun e => (flowReclaimTest k s.world cpu tiersEmpty e.task).isSome)
      (flowDispatchMaxVisit - s.visits) (s.world.dsq flowOverflowDsq)
    match r.hit with
    | none => (s.walked flowOverflowDsq cpu.toNat r false, 0)
    | some e =>
      let cell := (flowReclaimTest k s.world cpu tiersEmpty e.task).getD s.world.reclaimCredit
      let moved := flowMoveCandidate k flowOverflowDsq cpu e.task
      let s := { s with world := { s.world with reclaimCredit := cell } }
      (s.walked flowOverflowDsq cpu.toNat r moved, if moved then 1 else 0)

end Reclaim

section Perf

def flowPerfBusyHint (w : World) (cpu localQ localOnQ nodeQ : ℤ) : Bool :=
  if cpu < 0 then false
  else if !flowCpuLive w cpu.toNat then false
  else if localQ > 0 then true
  else if localOnQ > 0 then true
  else if nodeQ > 0 then true
  else
    match flowCpu w cpu.toNat with
    | none => false
    | some st => decide (st.runningPid ≠ 0)

def flowPerfSet (w : World) (k : Kernel) (cpu : ℤ) (want : UInt32) : World :=
  if !k.cpuperfSet then w
  else if cpu < 0 then w
  else if !flowCpuLive w cpu.toNat then w
  else if want ≠ flowCpuPerfHalf ∧ want ≠ flowCpuPerfMax then w
  else
    let want := match k.cpuperfCap with
      | none => some want
      | some cap =>
        if cap cpu.toNat = 0 then none
        else if want > cap cpu.toNat then some (cap cpu.toNat)
        else some want
    match want with
    | none => w
    | some want =>
      if w.perfLast cpu.toNat = want then w
      else { w with perfLast := Function.update w.perfLast cpu.toNat want }

def flowPerfUpdateHint (w : World) (k : Kernel) (cpu localQ localOnQ nodeQ : ℤ) : World :=
  if flowPerfBusyHint w cpu localQ localOnQ nodeQ then flowPerfSet w k cpu flowCpuPerfMax
  else flowPerfSet w k cpu flowCpuPerfHalf

end Perf

section Dispatch

/-- The depths the pass reads once. -/
structure Depths where
  lq0 : ℤ
  lo0 : ℤ
  nq0 : ℤ
  mq0 : ℤ

/-- The node whose queue the pass drains, folded to zero past the bounds. -/
def flowDispatchNode (w : World) (cpu : ℕ) : ℕ :=
  let node := flowCpuNode w cpu
  if node ≥ flowMaxNodes ∨ node ≥ w.nrNodeIds then 0 else node

def flowDispatchDepths (w : World) (cpu : ℕ) : Depths :=
  ⟨nrQueued w (flowLocalDsq cpu), nrQueued w (scxLocalOn cpu),
    nrQueued w (flowNodeDsq (flowDispatchNode w cpu)), nrQueued w flowMachineDsq⟩

/-- One capped tier move, while a slot and a visit are left. -/
def flowDispatchTier (k : Kernel) (dsq : ℕ) (cpu queued : ℤ) (s : Pass) : Pass × ℕ :=
  if s.left ≠ 0 ∧ s.visits < flowDispatchMaxVisit then
    if queued > 0 then
      let (s, moved) := flowMoveOneHint k dsq cpu queued s
      let moved := if moved > s.left then s.left else moved
      ({ s with left := s.left - moved }, moved)
    else (s, 0)
  else (s, 0)

def flowDispatchLocal (k : Kernel) (cpu : ℤ) (d : Depths) (s : Pass) : Pass :=
  let (s, moved) := flowDispatchTier k (flowLocalDsq cpu.toNat) cpu d.lq0 s
  { s with localMoved := moved }

def flowDispatchNodeTier (k : Kernel) (cpu : ℤ) (node : ℕ) (d : Depths) (s : Pass) : Pass :=
  let (s, moved) := flowDispatchTier k (flowNodeDsq node) cpu d.nq0 s
  { s with nodeMoved := moved }

def flowDispatchMachine (k : Kernel) (cpu : ℤ) (d : Depths) (s : Pass) : Pass :=
  let (s, moved) := flowDispatchTier k flowMachineDsq cpu d.mq0 s
  { s with machineMoved := moved }

/-- The reclaim of the pass, counted as a local move too. -/
def flowDispatchReclaim (k : Kernel) (cpu : ℤ) (d : Depths) (s : Pass) : Pass :=
  if s.left ≠ 0 ∧ s.visits < flowDispatchMaxVisit then
    let tiersEmpty := decide (d.lq0 ≤ 0 ∧ d.nq0 ≤ 0 ∧ d.mq0 ≤ 0)
    let oq := nrQueued s.world flowOverflowDsq
    if oq > 0 then
      let (s, reclaimed) := flowRejectReclaimOne k cpu oq tiersEmpty s
      let reclaimed := if reclaimed > s.left then s.left else reclaimed
      { s with
        left := s.left - reclaimed
        localMoved := s.localMoved + reclaimed
        reclaimMoved := s.reclaimMoved + reclaimed }
    else s
  else s

/-- The cursor `flow_dispatch` stores after a steal that moved a task. -/
def flowCursorAdvance (w : World) (cpu : ℤ) (cursor moved : ℕ) : World :=
  match flowCpu w cpu.toNat with
  | none => w
  | some cst =>
    if moved ≠ 0 ∧ w.nrCpuIds > 1 ∧ w.nrCpuIds ≤ flowMaxCpus then
      w.setCpu cpu.toNat
        { cst with cursor := UInt32.ofNat (flowWrapIdx (cursor + 2) w.nrCpuIds) }
    else w

/-- The steal of the pass, taken only when the three tiers held nothing. -/
def flowDispatchSteal (k : Kernel) (cpu : ℤ) (d : Depths) (s : Pass) : Pass :=
  if s.left ≠ 0 ∧ s.visits < flowDispatchMaxVisit then
    let backlog := d.lq0.toNat + d.nq0.toNat + d.mq0.toNat
    if backlog = 0 then
      let cursor := match flowCpu s.world cpu.toNat with
        | none => cpu.toNat
        | some cst => cst.cursor.toNat
      let (s, moved) := flowStealOne k cpu cursor s
      let moved := if moved > s.left then s.left else moved
      { s with
        left := s.left - moved
        localMoved := s.localMoved + moved
        world := flowCursorAdvance s.world cpu cursor moved }
    else s
  else s

/-- The general sequence of tier moves, reclaim and steal. -/
def flowDispatchGeneral (k : Kernel) (cpu : ℤ) (node : ℕ) (d : Depths) (s : Pass) : Pass :=
  flowDispatchSteal k cpu d <| flowDispatchReclaim k cpu d <| flowDispatchMachine k cpu d <|
    flowDispatchNodeTier k cpu node d <| flowDispatchLocal k cpu d s

/-- The moves of a pass, through the local shortcut where it is open and `fast` allows it. -/
def flowDispatchMoves (k : Kernel) (cpu : ℤ) (node : ℕ) (d : Depths) (fast : Bool) (s : Pass) :
    Pass :=
  let q1Only := decide (d.lq0 > 0 ∧ d.nq0 ≤ 0 ∧ d.mq0 ≤ 0)
  if fast && q1Only && decide (s.left ≠ 0 ∧ s.visits < flowDispatchMaxVisit) then
    flowDispatchLocal k cpu d s
  else flowDispatchGeneral k cpu node d s

/-- `flow_account_local` and its siblings: a zero count adds nothing. -/
def flowAccount (w : World) (k : Kernel) (c : Counter) (n : ℕ) : World :=
  if n = 0 then w else flowCount w k c (UInt64.ofNat n)

/-- The counts at the end of the moves. -/
def flowDispatchAccount (k : Kernel) (s : Pass) : World :=
  let w := flowAccount s.world k .localMoves s.localMoved
  let w := flowAccount w k .nodeMoves s.nodeMoved
  let w := flowAccount w k .machineMoves s.machineMoved
  flowAccount w k .redReclaims s.reclaimMoved

/-- The pass of `flow_dispatch` on a CPU, with the shortcut or without. -/
def flowDispatchPass (w : World) (k : Kernel) (cpu : ℤ) (fast : Bool) : Pass :=
  if cpu < 0 then Pass.start w 0
  else if !flowCpuLive w cpu.toNat then Pass.start (flowCount w k .gateRejects 1) 0
  else
    let node := flowDispatchNode w cpu.toNat
    let d := flowDispatchDepths w cpu.toNat
    let s := Pass.start w k.nrSlots
    let s := if k.nrSlots = 0 then s
      else
        let s := flowDispatchMoves k cpu node d fast s
        { s with world := flowDispatchAccount k s }
    { s with world := flowPerfUpdateHint s.world k cpu d.lq0 d.lo0 d.nq0 }

def flowDispatch (w : World) (k : Kernel) (cpu : ℤ) : World :=
  (flowDispatchPass w k cpu true).world

end Dispatch

end ScxFlow
