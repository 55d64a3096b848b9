import ScxFlow.Proofs.Admission

/-!
# The hint of a hierarchy and the weights it was given

`flow_cgroup_init` stores the neutral row whatever weight its arguments carry, and
`flow_cgroup_set_weight` stores the band of the weight it is called with.  So the row a fresh
enqueue reads goes back to the last call for the hierarchy: the band of a weight set since it was
last created, and no hint otherwise, also where a weight was configured before.
-/

namespace ScxFlow

variable {w : World} {k : Kernel}

section Run

/-- The hint table beside the weight the kernel has configured for each hierarchy. -/
structure Weighed where
  world : World
  configured : UInt64 → UInt32

/-- What the kernel does to one hierarchy. -/
inductive WeightOp
  /-- A weight for a hierarchy that the scheduler was not told of. -/
  | configure (c : Cgroup) (weight : UInt32)
  /-- `flow_cgroup_init`, with the configured weight in its arguments. -/
  | init (k : Kernel) (c : Cgroup)
  | exit (c : Cgroup)
  /-- A later weight, through `flow_cgroup_set_weight`. -/
  | setWeight (k : Kernel) (c : Cgroup) (weight : UInt32)

/-- One op, with the weight it passes to the scheduler, if it passes one. -/
def Weighed.step (s : Weighed) : WeightOp → Weighed
  | .configure c weight =>
    { s with configured := Function.update s.configured (flowCgrpId (some c)) weight }
  -- the arguments are not read
  | .init k c => { s with world := (flowCgroupInit s.world k (some c)).toOption.getD s.world }
  | .exit c => { s with world := flowCgroupExit s.world (some c) }
  | .setWeight k c weight =>
    { world := flowCgroupSetWeight s.world k (some c) weight
      configured := Function.update s.configured (flowCgrpId (some c)) weight }

/-- The hint table under configuration, which logs its ops. -/
def weightOps : Machine Weighed WeightOp WeightOp where
  step := Weighed.step
  out _ l := [l]

/-- The hint table has room for the row of the hierarchy. -/
def HintRoom (s : Weighed) : WeightOp → Prop
  | .init k c | .setWeight k c _ =>
    k.mapRoom = true ∨ (s.world.hintStor (flowCgrpId (some c))).isSome = true
  | _ => True

end Run

section Restored

/-- The weight set for `id` since it was last created or removed, one op on. -/
def setSince (id : UInt64) (cur : Option UInt32) : WeightOp → Option UInt32
  | .configure _ _ => cur
  | .init _ c => if flowCgrpId (some c) = id then none else cur
  | .exit c => if flowCgrpId (some c) = id then none else cur
  | .setWeight _ c weight => if flowCgrpId (some c) = id then some weight else cur

/-- The hint a weight gives, and no hint with the neutral share without one. -/
def hintOf : Option UInt32 → UInt32 × UInt32
  | none => (0, flowWeightBase.toUInt32)
  | some weight => ((flowShareBand weight).periodUs, (flowShareBand weight).weight)

theorem flowCgrpId_ne_zero (c : Cgroup) : flowCgrpId (some c) ≠ 0 := by
  unfold flowCgrpId
  simp only
  split
  · decide
  · split
    · decide
    · assumption

/-- The shares of the bands are themselves shares. -/
theorem flowShareBand_weight (weight : UInt32) :
    (flowShareBand weight).weight ≠ 0
      ∧ flowWeightClamp (flowShareBand weight).weight = (flowShareBand weight).weight := by
  unfold flowShareBand
  simp only
  split_ifs <;> exact ⟨by decide, by decide⟩

theorem flowHintRow_neutral {id : UInt64}
    (h : w.hintStor id = none ∨ w.hintStor id = some ⟨0, flowWeightBase.toUInt32⟩) :
    flowHintRow w id = hintOf none := by
  unfold flowHintRow
  rcases h with h | h
  · rw [h]
    rfl
  · rw [h]
    rfl

theorem flowHintRow_band {id : UInt64} {weight : UInt32}
    (h : w.hintStor id = some (flowShareBand weight)) :
    flowHintRow w id = hintOf (some weight) := by
  obtain ⟨hne, hclamp⟩ := flowShareBand_weight weight
  unfold flowHintRow
  rw [h]
  simp only [hintOf, if_pos hne, hclamp]

theorem flowHintRow_congr {w' : World} {id : UInt64} (h : w'.hintStor id = w.hintStor id) :
    flowHintRow w' id = flowHintRow w id := by
  unfold flowHintRow
  rw [h]

theorem hintUpdate_room {id : UInt64} (row : FlowHint)
    (h : k.mapRoom = true ∨ (w.hintStor id).isSome = true) :
    w.hintUpdate k id row = { w with hintStor := Function.update w.hintStor id (some row) } := by
  unfold World.hintUpdate
  rw [if_pos (by simpa using h)]

/-- One op takes the row of every id where the history takes its weight. -/
theorem hintRow_step {s : Weighed} {l : WeightOp} (hroom : HintRoom s l) {cur : Option UInt32}
    {id : UInt64} (h : flowHintRow s.world id = hintOf cur) :
    flowHintRow (s.step l).world id = hintOf (setSince id cur l) := by
  -- each of the three writes replaces the row of one id
  have hwrite (c : Cgroup) (row : Option FlowHint) (new : Option UInt32)
      (hw : (s.step l).world
        = { s.world with hintStor := Function.update s.world.hintStor (flowCgrpId (some c)) row })
      (hnew : (s.step l).world.hintStor (flowCgrpId (some c)) = row →
        flowHintRow (s.step l).world (flowCgrpId (some c)) = hintOf new) :
      flowHintRow (s.step l).world id
        = hintOf (if flowCgrpId (some c) = id then new else cur) := by
    by_cases hid : flowCgrpId (some c) = id
    · subst hid
      rw [if_pos rfl]
      exact hnew (by rw [hw]; exact Function.update_self ..)
    · rw [if_neg hid, flowHintRow_congr (w := s.world) (by
        rw [hw]
        exact Function.update_of_ne (Ne.symm hid) row s.world.hintStor)]
      exact h
  cases l with
  | configure c weight => exact h
  | init k c =>
    refine hwrite c (some ⟨0, flowWeightBase.toUInt32⟩) none ?_
      fun hrow => flowHintRow_neutral (Or.inr hrow)
    rw [← hintUpdate_room _ hroom]
    simp only [Weighed.step, flowCgroupInit, if_neg (flowCgrpId_ne_zero c)]
    rfl
  | exit c =>
    refine hwrite c none none ?_ fun hrow => flowHintRow_neutral (Or.inl hrow)
    simp only [Weighed.step, flowCgroupExit, if_neg (flowCgrpId_ne_zero c)]
  | setWeight k c weight =>
    refine hwrite c (some (flowShareBand weight)) (some weight) ?_ flowHintRow_band
    rw [← hintUpdate_room _ hroom]
    simp only [Weighed.step, flowCgroupSetWeight, if_neg (flowCgrpId_ne_zero c)]

/-- The ops on the table leave the cache of the hierarchy alone. -/
theorem weightOp_cache (s : Weighed) (l : WeightOp) :
    (s.step l).world.cgrpCache = s.world.cgrpCache := by
  cases l with
  | configure c weight => rfl
  | init k c =>
    show ((flowCgroupInit s.world k (some c)).toOption.getD s.world).cgrpCache = _
    rcases flowCgroupInit_cases s.world k (some c) with heq | ⟨id, heq⟩
    · rw [heq]
    · rw [heq, hintUpdate_eq]
  | exit c =>
    show (flowCgroupExit s.world (some c)).cgrpCache = _
    rcases flowCgroupExit_cases s.world (some c) with heq | ⟨id, heq⟩
    · rw [heq]
    · rw [heq]
  | setWeight k c weight =>
    show (flowCgroupSetWeight s.world k (some c) weight).cgrpCache = _
    rcases flowCgroupSetWeight_cases s.world k (some c) weight with heq | ⟨id, heq⟩
    · rw [heq]
    · rw [heq, hintUpdate_eq]

/-- After every history of configurations, creations, removals and weights, with room in the table,
a fresh enqueue of a task of the hierarchy reads the band of the weight set since the hierarchy was
last created or removed, and no hint where none was. -/
theorem freshHint_of_history (s : Weighed) (hstor : ∀ id, s.world.hintStor id = none)
    (hcache : ∀ pid, s.world.cgrpCache pid = none) (ls : List WeightOp)
    (hroom : weightOps.Along HintRoom s ls) (k : Kernel) (p : TaskRef) (t : FlowTaskCtx)
    (enqFlags : UInt64) (hfresh : isReenq enqFlags = false) (c : Cgroup)
    (hc : (k.task p).cgroup = some c) :
    (flowEnqueueHint (weightOps.exec s ls).world k p t enqFlags).1
      = hintOf (ls.foldl (setSince (flowCgrpId (some c))) none) := by
  have hlog : ∀ (ls : List WeightOp) (s : Weighed), weightOps.log s ls = ls := by
    intro ls
    induction ls with
    | nil => exact fun _ => rfl
    | cons l ls ih => exact fun s => congrArg (l :: ·) (ih _)
  have hrun := weightOps.invariant
    (I := fun s h => (∀ pid, s.world.cgrpCache pid = none)
      ∧ ∀ id, flowHintRow s.world id = hintOf (h.foldl (setSince id) none))
    (fun s l h hl hi => by
      refine ⟨fun pid => ?_, fun id => ?_⟩
      · show (s.step l).world.cgrpCache pid = none
        rw [weightOp_cache]
        exact hi.1 pid
      · show flowHintRow (s.step l).world id = hintOf ((h ++ [l]).foldl (setSince id) none)
        rw [List.foldl_append]
        exact hintRow_step hl (hi.2 id)) ls hroom (h := [])
    ⟨hcache, fun id => flowHintRow_neutral (Or.inl (hstor id))⟩
  rw [List.nil_append, hlog] at hrun
  obtain ⟨hempty, hrow⟩ := hrun
  rw [← hrow]
  unfold flowEnqueueHint flowTaskHintWeight flowTaskHintAcquire
  simp only [hfresh, Bool.false_eq_true, ↓reduceIte, hempty, hc, ite_self]

/-- No rows yet, and weight 100 configured for every hierarchy. -/
def Weighed.boot : Weighed := ⟨World.boot 2 1 fun _ => 0, fun _ => 100⟩

/-- A view that shows every task in hierarchy 5. -/
def Kernel.inFive : Kernel :=
  { Kernel.plain 1000 with task := fun p => { TaskStruct.plain p with cgroup := some ⟨some 5⟩ } }

/-- Weight 600 configured before the scheduler learns of the hierarchy. -/
def weightThenInit : List WeightOp := [.configure ⟨some 5⟩ 600, .init .inFive ⟨some 5⟩]

/-- The same weight configured after. -/
def initThenWeight : List WeightOp := [.init .inFive ⟨some 5⟩, .setWeight .inFive ⟨some 5⟩ 600]

/-- Two orders that configure the same weight leave different hints, and the one where the weight
came first is not the band of the weight. -/
theorem freshHint_forgets_configured :
    weightOps.Along HintRoom Weighed.boot weightThenInit
      ∧ weightOps.Along HintRoom Weighed.boot initThenWeight
      ∧ (weightOps.exec Weighed.boot weightThenInit).configured 5 = 600
      ∧ (weightOps.exec Weighed.boot initThenWeight).configured 5 = 600
      ∧ (flowTaskHintWeight (weightOps.exec Weighed.boot weightThenInit).world .inFive 1).1
        = (0, 128)
      ∧ (flowTaskHintWeight (weightOps.exec Weighed.boot initThenWeight).world .inFive 1).1
        = (4000, 1024)
      ∧ flowShareBand 600 = ⟨4000, 1024⟩ :=
  ⟨⟨trivial, Or.inl rfl, trivial⟩, ⟨Or.inl rfl, Or.inl rfl, trivial⟩, rfl, rfl, rfl, rfl, rfl⟩

theorem freshHint_of_history_five :
    (flowEnqueueHint (weightOps.exec Weighed.boot initThenWeight).world .inFive 1
        FlowTaskCtx.zero 0).1
      = hintOf (initThenWeight.foldl (setSince (flowCgrpId (some ⟨some 5⟩))) none) :=
  freshHint_of_history Weighed.boot (fun _ => rfl) (fun _ => rfl) initThenWeight
    ⟨Or.inl rfl, Or.inl rfl, trivial⟩ .inFive 1 FlowTaskCtx.zero 0 rfl ⟨some 5⟩ rfl

end Restored

end ScxFlow
