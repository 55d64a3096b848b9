import ScxFlow.Lifecycle
import ScxFlow.Proofs.EnqueueShape

/-!
# What one segment does

The cases of `flow_running` and `flow_stopping`, once each: which state they leave, and which of
their effects touch the start, the deadline count, the owner and the minimum of the CPU.  `EndEff`
lists what a stop, an enable, a disable and an exit can do.
-/

namespace ScxFlow

variable {w : World} {k : Kernel} {p : TaskRef}

section Running

/-- The owner store of `flow_running`. -/
def ownerEffect (w : World) (ts : TaskStruct) : List Effect :=
  if ts.taskCpu < 0 then [] else if !flowCpuLive w ts.taskCpu.toNat then []
  else [.setRunning ts.taskCpu.toNat ts.pid]

theorem exists_of_mem_ownerEffect {ts : TaskStruct} {e : Effect} (h : e ∈ ownerEffect w ts) :
    ∃ cpu : ℕ, e = .setRunning cpu ts.pid := by
  unfold ownerEffect at h
  split at h
  · simp at h
  · split at h
    · simp at h
    · exact ⟨_, List.mem_singleton.mp h⟩

theorem flowRunning_of_closed (h : flowEntryOk w (k.task p) (k.task p).taskCpu 0 = false) :
    flowRunning w k p = ⟨w.taskCtx p, [.count .gateRejects 1]⟩ := by
  simp [flowRunning, h]

theorem flowRunning_of_open (h : flowEntryOk w (k.task p) (k.task p).taskCpu 0 = true) :
    (∃ t, w.taskCtx p = some t ∧ t.runAt = 0 ∧ flowRunning w k p
        = ⟨some { t with runAt := flowRunStamp k.now },
          .claimRun (flowRunStamp k.now) :: ownerEffect w (k.task p)⟩)
      ∨ ((∀ t, w.taskCtx p = some t → t.runAt ≠ 0)
        ∧ flowRunning w k p = ⟨w.taskCtx p, ownerEffect w (k.task p)⟩) := by
  unfold flowRunning ownerEffect
  simp only [h, Bool.not_true, Bool.false_eq_true, ↓reduceIte]
  rcases ht : w.taskCtx p with _ | t
  · exact Or.inr ⟨by simp, rfl⟩
  · by_cases hr : t.runAt = 0
    · exact Or.inl ⟨t, rfl, hr, by simp [hr]⟩
    · refine Or.inr ⟨?_, by simp [hr]⟩
      intro t' ht'
      rw [← Option.some.inj ht']
      exact hr

end Running

section Stopping

/-- The storage a stop charges: past the gate, with a claimed start. -/
def stopTakes (w : World) (k : Kernel) (p : TaskRef) : Option FlowTaskCtx :=
  if !flowEntryOk w (k.task p) (k.task p).taskCpu 0 then none
  else
    match w.taskCtx p with
    | none => none
    | some t => if t.runAt = 0 then none else some t

theorem stopTakes_some {t : FlowTaskCtx} (h : stopTakes w k p = some t) :
    flowEntryOk w (k.task p) (k.task p).taskCpu 0 = true ∧ w.taskCtx p = some t ∧ t.runAt ≠ 0 := by
  unfold stopTakes at h
  split at h
  · cases h
  rename_i hgate
  rcases ht : w.taskCtx p with _ | t₀
  · rw [ht] at h
    cases h
  rw [ht] at h
  simp only at h
  split at h
  · cases h
  rename_i hr
  obtain rfl := Option.some.inj h
  exact ⟨by simpa using hgate, rfl, hr⟩

/-- The storage after a stop that charges `delta` to `t`. -/
structure StopCtx (t t' : FlowTaskCtx) (delta : UInt64) : Prop where
  runAt : t'.runAt = 0
  deadline : t'.deadline = t.deadline
  weight : t'.weight = t.weight
  hintW : t'.hintW = t.hintW
  hintUs : t'.hintUs = t.hintUs
  vruntime : t'.vruntime = if delta ≠ 0 then (flowStopCharge t delta).vruntime else t.vruntime

/-- The charge of a stop: the runtime count and the fold of the minimum. -/
def chargeEffects (ts : TaskStruct) (c : FlowTaskCtx) (delta : UInt64) : List Effect :=
  if delta ≠ 0 then [.count .totalRuntime delta, .minAdvance ts.taskCpu c.vruntime] else []

/-- The effects of a stop past its claim of a start. -/
inductive StopEff (ts : TaskStruct) (c : FlowTaskCtx) (now delta : UInt64) :
    Bool → List Effect → Prop
  | requeue : StopEff ts c now delta true (chargeEffects ts c delta
    ++ [.clearRunningIfOwner ts.taskCpu ts.pid, .count .requeues 1])
  | complete {credit : List Effect} (h : credit = [] ∨ ∃ d, credit = [.creditAdd d]) :
    StopEff ts c now delta false (chargeEffects ts c delta ++ credit
      ++ [.clearRunningIfOwner ts.taskCpu ts.pid]
      ++ (if flowMissed c.deadline now then [.count .misses 1] else []) ++ [.count .completions 1])

/-- The effects of the ops that end a segment, apart from the take of its start. -/
inductive EndEff (ts : TaskStruct) : Effect → Prop
  | gate : EndEff ts (.count .gateRejects 1)
  | runtime (n : UInt64) : EndEff ts (.count .totalRuntime n)
  | fold (v : UInt64) : EndEff ts (.minAdvance ts.taskCpu v)
  | credit (d : UInt64) : EndEff ts (.creditAdd d)
  | clear : EndEff ts (.clearRunningIfOwner ts.taskCpu ts.pid)
  | miss : EndEff ts (.count .misses 1)
  | requeue : EndEff ts (.count .requeues 1)
  | completion : EndEff ts (.count .completions 1)
  | invalidate : EndEff ts (.cacheInvalidate ts.pid)

theorem StopEff.ends {ts : TaskStruct} {c : FlowTaskCtx} {now delta : UInt64} {runnable : Bool}
    {es : List Effect} (h : StopEff ts c now delta runnable es) : ∀ e ∈ es, EndEff ts e := by
  have hcharge : ∀ e ∈ chargeEffects ts c delta, EndEff ts e := by
    unfold chargeEffects
    split
    · simp [EndEff.runtime, EndEff.fold]
    · simp
  intro e he
  cases h with
  | requeue =>
    simp only [List.mem_append, List.mem_cons, List.not_mem_nil, or_false] at he
    rcases he with he | rfl | rfl
    · exact hcharge e he
    · exact .clear
    · exact .requeue
  | complete h =>
    simp only [List.mem_append, List.mem_singleton] at he
    rcases he with (((he | he) | rfl) | he) | rfl
    · exact hcharge e he
    · rcases h with rfl | ⟨d, rfl⟩
      · simp at he
      · rw [List.mem_singleton.mp he]
        exact .credit d
    · exact .clear
    · split at he
      · rw [List.mem_singleton.mp he]
        exact .miss
      · simp at he
    · exact .completion

theorem flowStopAdapt_ctx (t : FlowTaskCtx) (now delta : UInt64) (miss isLat : Bool)
    (costAvg : UInt64) {t₀ : FlowTaskCtx} (h : StopCtx t₀ t delta) :
    StopCtx t₀ (flowStopAdapt t now delta miss isLat costAvg) delta :=
  ⟨h.runAt, h.deadline, h.weight, h.hintW, h.hintUs, h.vruntime⟩

theorem flowStopRunnable_ctx (t : FlowTaskCtx) (start now delta : UInt64) (havePred isLat : Bool)
    (nAvg : UInt64) {t₀ : FlowTaskCtx} (h : StopCtx t₀ t delta) :
    StopCtx t₀ (flowStopRunnable t start now delta havePred isLat nAvg) delta := by
  unfold flowStopRunnable
  simp only
  split
  · exact ⟨h.runAt, h.deadline, h.weight, h.hintW, h.hintUs, h.vruntime⟩
  · split
    · exact ⟨h.runAt, h.deadline, h.weight, h.hintW, h.hintUs, h.vruntime⟩
    · exact flowStopAdapt_ctx t now delta _ isLat _ h

theorem flowCountMiss_ctx {t₀ t : FlowTaskCtx} {delta : UInt64} (h : StopCtx t₀ t delta) :
    StopCtx t₀ (flowCountMiss t) delta := by
  rw [flowCountMiss_eq]
  exact ⟨h.runAt, h.deadline, h.weight, h.hintW, h.hintUs, h.vruntime⟩

theorem flowStopCharged_ctx {t : FlowTaskCtx} (delta : UInt64) (hr : t.runAt = 0) :
    StopCtx t (flowStopCharged t delta) delta := by
  unfold flowStopCharged
  split
  · rename_i h
    exact ⟨hr, rfl, rfl, rfl, rfl, by rw [if_pos h]⟩
  · rename_i h
    exact ⟨hr, rfl, rfl, rfl, rfl, by rw [if_neg h]⟩

/-- A stop past its claim: the state it leaves and the effects it has. -/
theorem flowStopSegment_spec {t : FlowTaskCtx} (ts : TaskStruct) (start now : UInt64)
    (runnable : Bool) (hr : t.runAt = 0) :
    (∃ t', (flowStopSegment t ts start now runnable).ctx = some t'
        ∧ StopCtx t t' (flowStopDelta now start))
      ∧ StopEff ts (flowStopCharged t (flowStopDelta now start)) now (flowStopDelta now start)
        runnable (flowStopSegment t ts start now runnable).eff := by
  have hc := flowStopCharged_ctx (flowStopDelta now start) hr
  unfold flowStopSegment
  simp only
  cases runnable
  · rw [if_neg (by simp)]
    refine ⟨⟨_, rfl, ?_⟩, ?_⟩
    · split
      · exact flowCountMiss_ctx (flowStopAdapt_ctx _ _ _ _ _ _ hc)
      · exact flowStopAdapt_ctx _ _ _ _ _ _ hc
    · rw [← flowMissed_eq]
      refine .complete ?_
      split
      · exact Or.inr ⟨_, rfl⟩
      · exact Or.inl rfl
  · rw [if_pos rfl]
    exact ⟨⟨_, rfl, flowStopRunnable_ctx _ _ _ _ _ _ _ hc⟩, .requeue⟩

/-- The cases of `flow_stopping`. -/
theorem flowStopping_cases (w : World) (k : Kernel) (p : TaskRef) (runnable : Bool) :
    (flowEntryOk w (k.task p) (k.task p).taskCpu 0 = false ∧ stopTakes w k p = none
        ∧ flowStopping w k p runnable = ⟨w.taskCtx p, [.count .gateRejects 1]⟩)
      ∨ (flowEntryOk w (k.task p) (k.task p).taskCpu 0 = true ∧ stopTakes w k p = none
        ∧ (∀ t, w.taskCtx p = some t → t.runAt = 0) ∧ flowStopping w k p runnable
          = ⟨w.taskCtx p, [.clearRunningIfOwner (k.task p).taskCpu (k.task p).pid]⟩)
      ∨ ∃ t t' es, flowEntryOk w (k.task p) (k.task p).taskCpu 0 = true
        ∧ stopTakes w k p = some t ∧ w.taskCtx p = some t ∧ t.runAt ≠ 0
        ∧ flowStopping w k p runnable
          = ⟨some t', .takeRun t.runAt (flowStopDelta k.now t.runAt) :: es⟩
        ∧ StopCtx { t with runAt := 0 } t' (flowStopDelta k.now t.runAt)
        ∧ StopEff (k.task p) (flowStopCharged { t with runAt := 0 } (flowStopDelta k.now t.runAt))
          k.now (flowStopDelta k.now t.runAt) runnable es := by
  unfold flowStopping stopTakes
  simp only
  rcases hgate : flowEntryOk w (k.task p) (k.task p).taskCpu 0 with _ | _
  · exact Or.inl ⟨rfl, rfl, rfl⟩
  · right
    rcases ht : w.taskCtx p with _ | t
    · exact Or.inl ⟨rfl, rfl, by simp, rfl⟩
    · by_cases hr : t.runAt = 0
      · refine Or.inl ⟨rfl, by simp [hr], ?_, ?_⟩
        · intro t' ht'
          rw [← Option.some.inj ht']
          exact hr
        · have hsame : { t with runAt := 0 } = t := by rw [← hr]
          simp [hr, hsame]
      · obtain ⟨⟨t', hctx, hstop⟩, heff⟩ := flowStopSegment_spec (t := { t with runAt := 0 })
          (k.task p) t.runAt k.now runnable rfl
        refine Or.inr ⟨t, t', _, rfl, by simp [hr], rfl, hr, ?_, hstop, heff⟩
        simp [hr, hctx]

theorem flowStopping_ends (w : World) (k : Kernel) (p : TaskRef) (runnable : Bool) :
    ∀ e ∈ (flowStopping w k p runnable).eff,
      (∃ start delta, e = .takeRun start delta) ∨ EndEff (k.task p) e := by
  rcases flowStopping_cases w k p runnable with ⟨-, -, heq⟩ | ⟨-, -, -, heq⟩ |
    ⟨t, t', es, -, -, -, -, heq, -, heff⟩
  · rw [heq]
    simp [EndEff.gate]
  · rw [heq]
    simp [EndEff.clear]
  · rw [heq]
    intro e he
    rcases List.mem_cons.mp he with rfl | he
    · exact Or.inl ⟨_, _, rfl⟩
    · exact Or.inr (heff.ends e he)

end Stopping

section Ends

theorem flowEnable_ends (w : World) (k : Kernel) (p : TaskRef) :
    ∀ e ∈ (flowEnable w k p).eff, EndEff (k.task p) e := by
  unfold flowEnable
  simp only
  split
  · simp [EndEff.gate]
  · split
    · simp
    · simp [EndEff.invalidate]

theorem flowDisable_ends (w : World) (k : Kernel) (p : TaskRef) :
    ∀ e ∈ (flowDisable w k p).eff, EndEff (k.task p) e := by
  unfold flowDisable
  simp only
  split
  · simp [EndEff.gate]
  · simp [EndEff.invalidate, EndEff.clear]

theorem flowDisable_ctx (w : World) (k : Kernel) (p : TaskRef) :
    (flowDisable w k p).ctx = w.taskCtx p := by
  unfold flowDisable
  simp only
  split
  · rfl
  · rfl

theorem flowExitTask_ends (w : World) (k : Kernel) (p : TaskRef) :
    ∀ e ∈ (flowExitTask w k p).eff, EndEff (k.task p) e := by
  simp [flowExitTask, EndEff.invalidate, EndEff.clear]

end Ends

end ScxFlow
