import ScxFlow.Proofs.StrictKey
import ScxFlow.Proofs.VerdictEffects

/-!
# One wait, one latency verdict

Every verdict of an enqueue is the latency of the task as its hint was stored, over the sleep that
ends with this wait: the stamp, the slice and the deadline written in between enter none of them.
-/

namespace ScxFlow

variable {w : World} {k : Kernel} {p : TaskRef} {t : FlowTaskCtx} {now enqFlags : UInt64}

section WaitVerdict

/-- The latency of a wait that begins at `now` with the state `t`. -/
def waitVerdict (t : FlowTaskCtx) (now : UInt64) : Bool :=
  flowEnqueueIsLat t.avgNs.toUInt64 t.devNs.toUInt64 t.hintUs
    (flowSleepNs t.waitAt now t.avgNs.toUInt64) (flowTaskEffectiveWeight t.weight t.hintW)

/-- The arguments the open and the pinned paths pass on for a wait. -/
def waitTail (t : FlowTaskCtx) (now enqFlags : UInt64) : FlowOpenTail :=
  ⟨t, t.deadline, now, enqFlags, t.hintUs, t.hintW, t.avgNs.toUInt64, t.devNs.toUInt64,
    isReenq enqFlags⟩

/-- Every use has the verdict `b`. -/
def AllAre (b : Bool) (vs : List Verdict) : Prop := ∀ v ∈ vs, v.isLat = b

theorem AllAre.nil (b : Bool) : AllAre b [] := fun _ h => absurd h List.not_mem_nil

theorem AllAre.cons {b : Bool} {v : Verdict} {vs : List Verdict} (hv : v.isLat = b)
    (h : AllAre b vs) : AllAre b (v :: vs) := fun v' hv' => by
  rcases List.mem_cons.mp hv' with rfl | hmem
  · exact hv
  · exact h v' hmem

theorem AllAre.append {b : Bool} {vs vs' : List Verdict} (h : AllAre b vs) (h' : AllAre b vs') :
    AllAre b (vs ++ vs') := fun v hv => (List.mem_append.mp hv).elim (h v) (h' v)

/-- A path that may end before its uses. -/
theorem AllAre.unless {b : Bool} {vs : List Verdict} {c : Prop} [Decidable c] (h : AllAre b vs) :
    AllAre b (if c then [] else vs) := by
  split
  · exact .nil b
  · exact h

/-- What the fair time leaves of a wait: the fields a verdict reads, the sleep it took, and the
verdict it found where it looked for one. -/
structure Carries (t : FlowTaskCtx) (now : UInt64) (f : FlowTaskCtx × FlowOpenOut) : Prop where
  avgNs : f.1.avgNs = t.avgNs
  devNs : f.1.devNs = t.devNs
  hintUs : f.1.hintUs = t.hintUs
  weight : f.1.weight = t.weight
  hintW : f.1.hintW = t.hintW
  sleepNs : f.2.sleepNs = flowSleepNs t.waitAt now t.avgNs.toUInt64
  isLat : f.2.isFresh = true → f.2.isLat = waitVerdict t now

/-- The verdict computed again from what the fair time left. -/
theorem Carries.again {f : FlowTaskCtx × FlowOpenOut} (h : Carries t now f) :
    flowEnqueueIsLat f.1.avgNs.toUInt64 f.1.devNs.toUInt64 f.1.hintUs f.2.sleepNs
      (flowTaskEffectiveWeight f.1.weight f.1.hintW) = waitVerdict t now := by
  rw [h.avgNs, h.devNs, h.hintUs, h.sleepNs, h.weight, h.hintW]
  rfl

/-- The same with the zero weight mapped to base first. -/
theorem Carries.again_default {f : FlowTaskCtx × FlowOpenOut} (h : Carries t now f) :
    flowEnqueueIsLat f.1.avgNs.toUInt64 f.1.devNs.toUInt64 f.1.hintUs f.2.sleepNs
      (flowTaskEffectiveWeight
        (if f.1.weight = 0 then flowWeightBase.toUInt32 else f.1.weight) f.1.hintW)
      = waitVerdict t now := by
  rw [flowTaskEffectiveWeight_default]
  exact h.again

end WaitVerdict

section FairTime

theorem flowEnqueueFresh_carries (t : FlowTaskCtx) (now enqFlags : UInt64) :
    Carries t now (flowEnqueueFresh (waitTail t now enqFlags)) := by
  unfold flowEnqueueFresh
  simp only
  split
  · exact ⟨rfl, rfl, rfl, rfl, rfl, rfl, fun _ => rfl⟩
  · exact ⟨rfl, rfl, rfl, rfl, rfl, rfl, fun _ => rfl⟩

theorem flowEnqueueOpen_carries (t : FlowTaskCtx) (now enqFlags : UInt64) :
    Carries t now (flowEnqueueOpen (waitTail t now enqFlags))
      ∧ (flowEnqueueOpen (waitTail t now enqFlags)).2.isLat = waitVerdict t now := by
  unfold flowEnqueueOpen
  split
  · have h := flowEnqueueFresh_carries t now enqFlags
    refine ⟨h, h.isLat ?_⟩
    unfold flowEnqueueFresh
    simp only
    split <;> rfl
  · exact ⟨⟨rfl, rfl, rfl, rfl, rfl, rfl, fun _ => rfl⟩, rfl⟩

theorem flowPinnedFair_carries (t : FlowTaskCtx) (now enqFlags : UInt64) (miss : Bool) :
    Carries t now (flowPinnedFair (waitTail t now enqFlags) miss) := by
  unfold flowPinnedFair
  cases miss with
  | true => exact ⟨rfl, rfl, rfl, rfl, rfl, rfl, fun h => absurd h Bool.false_ne_true⟩
  | false =>
    simp only [Bool.false_eq_true, ↓reduceIte]
    split
    · exact flowEnqueueFresh_carries t now enqFlags
    · exact ⟨rfl, rfl, rfl, rfl, rfl, rfl, fun h => absurd h Bool.false_ne_true⟩

theorem freshVerdicts_are (t : FlowTaskCtx) (now enqFlags : UInt64) :
    AllAre (waitVerdict t now) (freshVerdicts (waitTail t now enqFlags)) := by
  unfold freshVerdicts
  simp only
  split
  · exact .cons rfl (.nil _)
  · exact .cons rfl (.cons rfl (.cons rfl (.nil _)))

end FairTime

section Joins

theorem rejectVerdicts_are (r : FlowRejectTail) : AllAre r.isLat (rejectVerdicts r) := by
  unfold rejectVerdicts
  split
  · exact .cons rfl (.nil _)
  · exact .cons rfl (.cons rfl (.nil _))

theorem kickVerdicts_are (w : World) (k : Kernel) (p : TaskRef) (t : FlowTaskCtx)
    (e : FlowEnqueueTail) : AllAre (flowCtxIsLat t e.arrSleep) (kickVerdicts w k p t e) := by
  have hbusy (pid : UInt32) :
      AllAre (flowCtxIsLat t e.arrSleep) (kickBusyVerdicts w k p t e pid) := by
    unfold kickBusyVerdicts
    rcases k.taskFromPid pid with _ | trusted
    · exact .nil _
    simp only
    split_ifs
    · exact .nil _
    rcases Function.update w.taskCtx p (some t) trusted with _ | octx
    · exact .nil _
    simp only
    split_ifs
    · exact .nil _
    · exact .cons rfl (.nil _)
  unfold kickVerdicts
  rcases flowCpu w e.cpu.toNat with _ | st
  · exact .nil _
  simp only
  split_ifs
  · exact .nil _
  · exact .nil _
  · exact .nil _
  · exact .nil _
  · exact hbusy st.runningPid

theorem openJoinVerdicts_are {f : FlowTaskCtx × FlowOpenOut} (h : Carries t now f)
    (hlat : f.2.isLat = waitVerdict t now) (cpu : ℤ) (enqFlags : UInt64) :
    AllAre (waitVerdict t now) (openJoinVerdicts w k p f.1 f.2 cpu enqFlags) := by
  have hkick := kickVerdicts_are w k p f.1 ⟨cpu, f.2.vtime, k.now, enqFlags, f.2.sleepNs,
    isReenq enqFlags, flowEligible f.1.vruntime (flowCpuMin w cpu.toNat) f.1.vlag⟩
  rw [show flowCtxIsLat f.1 f.2.sleepNs = waitVerdict t now from h.again_default] at hkick
  exact .append (hlat ▸ rejectVerdicts_are _) (.unless (.unless hkick))

theorem pinnedJoinVerdicts_are {f : FlowTaskCtx × FlowOpenOut} (h : Carries t now f) (pc : ℤ)
    (enqFlags : UInt64) :
    AllAre (waitVerdict t now) (pinnedJoinVerdicts w k p f.1 f.2 pc enqFlags) := by
  have hlat : (if f.2.isFresh then f.2.isLat
      else flowEnqueueIsLat f.1.avgNs.toUInt64 f.1.devNs.toUInt64 f.1.hintUs f.2.sleepNs
        (flowTaskEffectiveWeight f.1.weight f.1.hintW)) = waitVerdict t now := by
    split_ifs with hfresh
    · exact h.isLat hfresh
    · exact h.again
  exact .append (hlat ▸ rejectVerdicts_are _)
    (.unless (.unless (.cons h.again_default (.nil _))))

end Joins

section Call

theorem admitVerdicts_are (t : FlowTaskCtx) (cpu : ℤ) (enqFlags : UInt64) :
    AllAre (waitVerdict t k.now) (admitVerdicts w k p t cpu enqFlags) := by
  let t' := { t with
    deadline := flowPredDeadline k.now t.avgNs.toUInt64 t.devNs.toUInt64 t.hintUs }
  obtain ⟨h, hlat⟩ := flowEnqueueOpen_carries t' k.now enqFlags
  refine .append ?_ (openJoinVerdicts_are h hlat cpu enqFlags)
  unfold openVerdicts
  split
  · exact freshVerdicts_are t' k.now enqFlags
  · exact .nil _

theorem pinnedWaitVerdicts_are (t : FlowTaskCtx) (pc : ℤ) (enqFlags : UInt64) :
    AllAre (waitVerdict t k.now) (pinnedWaitVerdicts w k p t pc enqFlags) := by
  have hsame : waitVerdict (flowPinnedCtx t k.now) k.now = waitVerdict t k.now := by
    unfold flowPinnedCtx flowCountMiss
    split
    · split <;> rfl
    · rfl
  have h := flowPinnedFair_carries (flowPinnedCtx t k.now) k.now enqFlags
    (flowPinnedMissed t k.now)
  have hjoin := pinnedJoinVerdicts_are (w := w) (k := k) (p := p) h pc enqFlags
  rw [hsame] at hjoin
  refine .append ?_ hjoin
  rw [← hsame]
  unfold pinnedFairVerdicts
  split
  · exact .nil _
  · split
    · exact freshVerdicts_are _ _ _
    · exact .nil _

theorem rejoinVerdicts_are (t : FlowTaskCtx) (cpu sel : ℤ) (enqFlags : UInt64) :
    AllAre (waitVerdict t now) (rejoinVerdicts ⟨t, cpu, sel, now, enqFlags, t.hintUs, t.hintW,
      t.avgNs.toUInt64, t.devNs.toUInt64⟩) := by
  have hsleep : (flowCountMiss t).waitAt = t.waitAt ∧ (flowCountMiss t).weight = t.weight := by
    unfold flowCountMiss
    split
    · exact ⟨rfl, rfl⟩
    · exact ⟨rfl, rfl⟩
  have hlat : flowEnqueueIsLat t.avgNs.toUInt64 t.devNs.toUInt64 t.hintUs
      (flowSleepNs (flowCountMiss t).waitAt now t.avgNs.toUInt64)
      (flowTaskEffectiveWeight (flowCountMiss t).weight t.hintW) = waitVerdict t now := by
    rw [hsleep.1, hsleep.2]
    rfl
  exact hlat ▸ rejectVerdicts_are _

/-- The state of a wait once its hint is stored. -/
def withHint (w : World) (k : Kernel) (p : TaskRef) (t : FlowTaskCtx) (enqFlags : UInt64) :
    FlowTaskCtx :=
  let h := flowEnqueueHint w k p (flowEnqueueDefaults t) enqFlags
  { flowEnqueueDefaults t with hintUs := h.1.1, hintW := h.1.2 }

/-- The clamp moves the vruntime, which no verdict reads. -/
theorem waitVerdict_clamp (t : FlowTaskCtx) (cpu : ℕ) (now : UInt64) :
    waitVerdict (flowClampToMin w t cpu) now = waitVerdict t now := by
  rw [flowClampToMin_eq]
  rfl

theorem liveVerdicts_are (t : FlowTaskCtx) (cpu : ℤ) (enqFlags : UInt64) :
    AllAre (waitVerdict (withHint w k p t enqFlags) k.now)
      (liveVerdicts w k p (flowEnqueueDefaults t) cpu enqFlags) := by
  rw [← waitVerdict_clamp (w := w) _ cpu.toNat]
  unfold liveVerdicts
  simp only
  split_ifs
  · exact rejoinVerdicts_are _ _ _ _
  · exact admitVerdicts_are _ _ _

theorem pinnedVerdicts_are (t : FlowTaskCtx) (enqFlags : UInt64) :
    AllAre (waitVerdict (withHint w k p t enqFlags) k.now)
      (pinnedVerdicts w k p (flowEnqueueDefaults t) enqFlags) := by
  unfold pinnedVerdicts
  simp only
  split_ifs
  · rw [← waitVerdict_clamp (w := w) _ (flowPickTarget w k p (k.task p).selectedCpu).toNat]
    exact pinnedWaitVerdicts_are _ _ _
  · exact pinnedWaitVerdicts_are _ _ _

theorem flowEnqueueVerdicts_are (w : World) (k : Kernel) (p : TaskRef) (enqFlags : UInt64) :
    ∃ b, AllAre b (flowEnqueueVerdicts w k p enqFlags) := by
  have hgate : ∃ b, AllAre b (gateMissVerdicts w p) := by
    unfold gateMissVerdicts
    rcases w.taskCtx p with _ | t
    · exact ⟨_, .cons rfl (.nil _)⟩
    · exact ⟨_, .cons rfl (.nil _)⟩
  unfold flowEnqueueVerdicts
  rcases flowGet w k p with _ | t
  · simp only
    split_ifs
    · exact ⟨true, .nil _⟩
    · exact hgate
    · exact ⟨false, .unless (.cons rfl (.nil _))⟩
  · simp only
    split_ifs
    · exact ⟨true, .nil _⟩
    · exact hgate
    · exact ⟨_, pinnedVerdicts_are t enqFlags⟩
    · exact ⟨_, .cons rfl (.nil _)⟩
    · exact ⟨_, liveVerdicts_are t _ enqFlags⟩

end Call

section OneVerdict

/-- An enqueue that tests the stored deadline has the verdict of the wait it ends, which its slice
and its key are made with. -/
theorem verdicts_of_tests {t : FlowTaskCtx} (ht : enqueueTests w k p enqFlags = some t) :
    AllAre (waitVerdict (withHint w k p t enqFlags) k.now)
      (flowEnqueueVerdicts w k p enqFlags) := by
  obtain ⟨hx, hgate, hget, hlive⟩ := enqueueTests_eq_some ht
  rw [gateClosed] at hgate
  unfold flowEnqueueVerdicts
  simp only [hx, hgate, hget, Option.isSome_none, Bool.false_eq_true, ↓reduceIte]
  split
  · exact pinnedVerdicts_are t enqFlags
  · rename_i hpin
    rw [hlive hpin]
    exact liveVerdicts_are t _ enqFlags

theorem waitVerdict_eq {t t' : FlowTaskCtx} (h : WaitStores w k p enqFlags t t') :
    waitVerdict (withHint w k p t enqFlags) k.now = waitIsLat t t' k.now := by
  obtain ⟨hus, hshare⟩ := Prod.mk.inj h.hint
  unfold waitIsLat
  rw [h.avg, h.dev, h.weight, hus, hshare]
  rfl

/-- Any two verdicts of one enqueue agree: the one of the slice and the key, the one of the RED
check and the reject value, and the one of the preempt test, on every path that has two of them.
They are the verdicts the op acts on: it rejects, values a reject and preempts exactly as those of
the log decide, and where a wait is timed, its slice and its tier key are made with the same
verdict. -/
theorem flowEnqueue_one_verdict (w : World) (k : Kernel) (p : TaskRef) (enqFlags : UInt64) :
    (∀ v ∈ flowEnqueueVerdicts w k p enqFlags, ∀ v' ∈ flowEnqueueVerdicts w k p enqFlags,
      v.isLat = v'.isLat)
    ∧ Tells (flowEnqueueVerdicts w k p enqFlags) (flowEnqueue w k p enqFlags).eff
    ∧ ∀ t, enqueueTests w k p enqFlags = some t → ∃ t', (flowEnqueue w k p enqFlags).ctx = some t'
      ∧ t'.sliceNs = waitSlice t t' k.now enqFlags
      ∧ TierKey (flowEnqueue w k p enqFlags).eff
        (fairKey t' k.now (waitBoosts t t' k.now enqFlags))
      ∧ ∀ v ∈ flowEnqueueVerdicts w k p enqFlags, v.isLat = waitIsLat t t' k.now := by
  refine ⟨fun v hv v' hv' => ?_, flowEnqueueVerdicts_tells w k p enqFlags, fun t ht => ?_⟩
  · obtain ⟨b, hb⟩ := flowEnqueueVerdicts_are w k p enqFlags
    rw [hb v hv, hb v' hv']
  · obtain ⟨t', hctx, hstores, hkey⟩ := flowEnqueue_waits ht
    refine ⟨t', hctx, hstores.slice, hkey, fun v hv => ?_⟩
    rw [verdicts_of_tests ht v hv, waitVerdict_eq hstores]

/-- The short arrival preempts on the verdict its slice and its RED check have. -/
theorem flowEnqueue_one_verdict_preempt :
    (∃ v ∈ flowEnqueueVerdicts World.ownedByEarly (Kernel.plain 1000000000) 0 0,
        v.preempts = true ∧ v.isLat = true)
      ∧ (∀ v ∈ flowEnqueueVerdicts World.ownedByEarly (Kernel.plain 1000000000) 0 0, v.isLat = true)
      ∧ ∃ t', (flowEnqueue World.ownedByEarly (Kernel.plain 1000000000) 0 0).ctx = some t'
        ∧ t'.sliceNs = waitSlice shortArrival t' 1000000000 0 := by
  obtain ⟨hagree, htells, hstored⟩ :=
    flowEnqueue_one_verdict World.ownedByEarly (Kernel.plain 1000000000) 0 0
  have hkick : Effect.kickPreempt 0
      ∈ (flowEnqueue World.ownedByEarly (Kernel.plain 1000000000) 0 0).eff := by
    decide
  obtain ⟨v, hv, hpre⟩ := htells.preempts.mp ⟨0, hkick⟩
  obtain ⟨t', hctx, hslice, -⟩ := hstored shortArrival rfl
  have hlat := v.isLat_of_preempts hpre
  exact ⟨⟨v, hv, hpre, hlat⟩, fun v' hv' => (hagree v' hv' v hv).trans hlat, t', hctx, hslice⟩

end OneVerdict

end ScxFlow
