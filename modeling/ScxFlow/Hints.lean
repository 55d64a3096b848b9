import ScxFlow.World

/-!
# Hints and shares

The flat hierarchy of `cgroup.bpf.c`, one row of a period and a weight for each id behind a cache
of ids by pid, and the base share of `weight.bpf.c`.
-/

namespace ScxFlow

/-- `flow_cgrp_id`: a missing hierarchy, node or id reads as the root. -/
def flowCgrpId (cgrp : Option Cgroup) : UInt64 :=
  match cgrp with
  | none => 1
  | some c =>
    match c.kn with
    | none => 1
    | some id => if id = 0 then 1 else id

/-- The period and the weight of the row of `id`, with defaults for a missing row. -/
def flowHintRow (w : World) (id : UInt64) : UInt32 × UInt32 :=
  match w.hintStor id with
  | none => (0, flowWeightBase.toUInt32)
  | some h =>
    (h.periodUs, if h.weight ≠ 0 then flowWeightClamp h.weight else flowWeightBase.toUInt32)

/-- The acquire path of `flow_task_hint_weight`, which fills the cache. -/
def flowTaskHintAcquire (w : World) (ts : TaskStruct) : (UInt32 × UInt32) × List Effect :=
  match ts.cgroup with
  | none => ((0, flowWeightBase.toUInt32), [])
  | some c =>
    let id := flowCgrpId (some c)
    (flowHintRow w id, if ts.pid ≠ 0 then [.cacheFill ts.pid id] else [])

/-- `flow_task_hint_weight`.  A zero cached id is a miss. -/
def flowTaskHintWeight (w : World) (k : Kernel) (p : TaskRef) :
    (UInt32 × UInt32) × List Effect :=
  let ts := k.task p
  if ts.pid ≠ 0 then
    match w.cgrpCache ts.pid with
    | some id => if id ≠ 0 then (flowHintRow w id, []) else flowTaskHintAcquire w ts
    | none => flowTaskHintAcquire w ts
  else flowTaskHintAcquire w ts

section Reading
variable (w : World) (k : Kernel) (p : TaskRef)

/-- A hint call reads the row of the cached id, or acquires the hierarchy. -/
theorem flowTaskHintWeight_cases :
    ((k.task p).pid ≠ 0 ∧ ∃ id, w.cgrpCache (k.task p).pid = some id
      ∧ flowTaskHintWeight w k p = (flowHintRow w id, []))
      ∨ flowTaskHintWeight w k p = flowTaskHintAcquire w (k.task p) := by
  unfold flowTaskHintWeight
  simp only
  split_ifs with hpid
  · rcases hid : w.cgrpCache (k.task p).pid with _ | id
    · exact Or.inr rfl
    · simp only
      split
      · exact Or.inl ⟨hpid, id, rfl, rfl⟩
      · exact Or.inr rfl
  · exact Or.inr rfl

/-- The answer is one of the rows, or the defaults of a task in no hierarchy. -/
theorem flowTaskHintWeight_row :
    (∃ id, (flowTaskHintWeight w k p).1 = flowHintRow w id)
      ∨ (flowTaskHintWeight w k p).1 = (0, flowWeightBase.toUInt32) := by
  rcases flowTaskHintWeight_cases w k p with ⟨-, id, -, h⟩ | h
  · exact Or.inl ⟨id, by rw [h]⟩
  · rw [h]
    unfold flowTaskHintAcquire
    rcases (k.task p).cgroup with _ | c
    · exact Or.inr rfl
    · exact Or.inl ⟨_, rfl⟩

end Reading

section HintWrite

/-- `flow_share_band`: the period in micros and the share of a weight. -/
def flowShareBand (w : UInt32) : FlowHint :=
  let c := flowWeightClamp w
  if c < 64 then ⟨32000, 32⟩
  else if c < 128 then ⟨16000, 64⟩
  else if c < 512 then ⟨8000, 256⟩
  else ⟨4000, 1024⟩

/-- An update of one hint row, which fails on a full map. -/
def World.hintUpdate (w : World) (k : Kernel) (id : UInt64) (row : FlowHint) : World :=
  if k.mapRoom || (w.hintStor id).isSome then
    { w with hintStor := Function.update w.hintStor id (some row) }
  else w

/-- `flow_cgroup_init`, with `-EINVAL` on a null hierarchy. -/
def flowCgroupInit (w : World) (k : Kernel) (cgrp : Option Cgroup) : Except ℤ World :=
  match cgrp with
  | none => .error (-22)
  | some c =>
    let id := flowCgrpId (some c)
    if id = 0 then .error (-22)
    else .ok (w.hintUpdate k id ⟨0, flowWeightBase.toUInt32⟩)

def flowCgroupExit (w : World) (cgrp : Option Cgroup) : World :=
  match cgrp with
  | none => w
  | some c =>
    let id := flowCgrpId (some c)
    if id = 0 then w else { w with hintStor := Function.update w.hintStor id none }

def flowCgroupMove (w : World) (k : Kernel) (p : TaskRef) (dst : Option Cgroup) : World :=
  match dst with
  | none => w
  | some _ => flowCgrpCacheInvalidate w (k.task p).pid

def flowCgroupSetWeight (w : World) (k : Kernel) (cgrp : Option Cgroup) (weight : UInt32) :
    World :=
  match cgrp with
  | none => w
  | some c =>
    let id := flowCgrpId (some c)
    if id = 0 then w else w.hintUpdate k id (flowShareBand weight)

/-- `flow_set_weight`: a missing state is not created. -/
def flowSetWeight (w : World) (p : TaskRef) (weight : UInt32) : World :=
  match w.taskCtx p with
  | none => w
  | some t =>
    let t' := { t with weight := flowWeightClamp weight }
    { w with taskCtx := Function.update w.taskCtx p (some t') }

end HintWrite

end ScxFlow
