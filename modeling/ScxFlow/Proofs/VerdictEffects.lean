import ScxFlow.Verdicts
import ScxFlow.Proofs.Preempt

/-!
# What the verdicts decide

Each verdict of an enqueue goes into one call: the RED check, the value of a reject, the preempt
test.  The enqueue counts a reject, inserts a value into the reject queue and preempts exactly where
the calls with the logged verdicts say so [flowEnqueueVerdicts_tells].
-/

namespace ScxFlow

variable {w : World} {k : Kernel} {p : TaskRef} {enqFlags : UInt64}

section Decisions

/-- The RED check with this verdict rejects. -/
def Verdict.rejects (v : Verdict) : Bool :=
  match v.use with
  | .redCheck deadline now avg slice => flowRedShouldReject deadline now avg slice v.isLat
  | _ => false

/-- The preempt test with this verdict takes the CPU. -/
def Verdict.preempts (v : Verdict) : Bool :=
  match v.use with
  | .preempt arrKey occKey now occRunAt occCur occLat =>
    flowPreemptOk arrKey occKey now occRunAt occCur v.isLat occLat
  | _ => false

/-- The value of a reject with this verdict. -/
def Verdict.value? (v : Verdict) : Option UInt32 :=
  match v.use with
  | .rejectValue share => some (flowRedValue share v.isLat)
  | _ => none

/-- Only a latency task preempts. -/
theorem Verdict.isLat_of_preempts (v : Verdict) (h : v.preempts = true) : v.isLat = true := by
  obtain ⟨use, isLat⟩ := v
  cases isLat with
  | true => rfl
  | false =>
    cases use with
    | preempt => simp [Verdict.preempts, flowPreemptOk] at h
    | _ => cases h

/-- The effects preempt, reject and value rejects exactly as the log decides. -/
structure Tells (vs : List Verdict) (es : List Effect) : Prop where
  preempts : (∃ cpu, .kickPreempt cpu ∈ es) ↔ ∃ v ∈ vs, v.preempts = true
  rejects : .count .redRejects 1 ∈ es ↔ ∃ v ∈ vs, v.rejects = true
  values : ∀ key, (∃ flags, .insertVtime flowOverflowDsq key flags ∈ es)
    ↔ ∃ v ∈ vs, ∃ value, v.value? = some value ∧ key = flowRejectKey value

/-- Neither a preemption, nor a reject, nor an insertion into the reject queue. -/
def Effect.isUntold : Effect → Bool
  | .kickPreempt _ | .count .redRejects _ => false
  | .insertVtime dsq _ _ => decide (dsq ≠ flowOverflowDsq)
  | _ => true

/-- The verdict decides none of them. -/
def Verdict.isUntold (v : Verdict) : Bool := !v.preempts && !v.rejects && v.value?.isNone

variable {vs vs' : List Verdict} {es es' : List Effect}

theorem Tells.append (h : Tells vs es) (h' : Tells vs' es') : Tells (vs ++ vs') (es ++ es') := by
  constructor
  case preempts =>
    simp only [List.mem_append, exists_or, or_and_right]
    exact or_congr h.preempts h'.preempts
  case rejects =>
    simp only [List.mem_append, exists_or, or_and_right]
    exact or_congr h.rejects h'.rejects
  case values =>
    intro key
    simp only [List.mem_append, exists_or, or_and_right]
    exact or_congr (h.values key) (h'.values key)

/-- Effects that no verdict decides, and verdicts that decide no effect. -/
theorem Tells.untold (hvs : ∀ v ∈ vs, v.isUntold = true) (hes : ∀ e ∈ es, e.isUntold = true) :
    Tells vs es := by
  have hnone : ∀ v ∈ vs, v.preempts = false ∧ v.rejects = false ∧ v.value? = none := by
    intro v hv
    simpa [Verdict.isUntold, and_assoc] using hvs v hv
  constructor
  case preempts =>
    refine iff_of_false (fun ⟨cpu, h⟩ => Bool.false_ne_true (hes _ h)) fun ⟨v, hv, h⟩ => ?_
    exact Bool.false_ne_true ((hnone v hv).1.symm.trans h)
  case rejects =>
    refine iff_of_false (fun h => Bool.false_ne_true (hes _ h)) fun ⟨v, hv, h⟩ => ?_
    exact Bool.false_ne_true ((hnone v hv).2.1.symm.trans h)
  case values =>
    intro key
    refine iff_of_false (fun ⟨flags, h⟩ => ?_) ?_
    · have hdsq : decide (flowOverflowDsq ≠ flowOverflowDsq) = true := hes _ h
      exact of_decide_eq_true hdsq rfl
    rintro ⟨v, hv, value, h, -⟩
    rw [(hnone v hv).2.2] at h
    cases h

theorem Tells.quiet (hes : ∀ e ∈ es, e.isUntold = true) : Tells [] es :=
  .untold (fun _ h => absurd h List.not_mem_nil) hes

theorem Tells.before (h : Tells vs es) (hes : ∀ e ∈ es', e.isUntold = true) :
    Tells vs (es ++ es') := by
  simpa using h.append (.quiet hes)

theorem Tells.behind (hes : ∀ e ∈ es, e.isUntold = true) (h : Tells vs es') :
    Tells vs (es ++ es') :=
  (Tells.quiet hes).append h

/-- Verdicts in front without an effect. -/
theorem Tells.silent (h : Tells vs []) (h' : Tells vs' es) : Tells (vs ++ vs') es := h.append h'

theorem Tells.nil : Tells [] [] := .quiet fun _ h => absurd h List.not_mem_nil

end Decisions

section Effects

theorem untold_of_isPrep {es : List Effect} (h : ∀ e ∈ es, e.isPrep = true) :
    ∀ e ∈ es, e.isUntold = true := by
  intro e he
  have hprep := h e he
  cases e with
  | count c n => cases c <;> simp_all [Effect.isPrep, Effect.isUntold]
  | kickPreempt => cases hprep
  | insertVtime => cases hprep
  | _ => rfl

theorem untold_kicks (t : Option FlowTaskCtx) (sel : ℤ) :
    ∀ e ∈ flowKickIdleAllowed w k p t sel, e.isUntold = true := by
  intro e he
  have hkick := flowKickIdleAllowed_isKick w k p t sel e he
  cases e with
  | count c n => cases c <;> simp_all [Effect.isKick, Effect.isUntold]
  | kickPreempt => exact absurd he flowKickIdleAllowed_no_preempt
  | insertVtime => cases hkick
  | _ => rfl

theorem untold_of_tier {dsq : ℕ} (h : IsTier dsq) (key flags : UInt64) :
    (Effect.insertVtime dsq key flags).isUntold = true := decide_eq_true h.lt.ne

theorem tells_tierInsert {cpu : ℤ} (hm : cpu.toNat < flowMaxCpus) (vtime now : UInt64)
    (t : Option FlowTaskCtx) (sel : ℤ) :
    Tells [] ([flowTierInsert w cpu vtime now, .count .admits 1]
      ++ flowKickIdleAllowed w k p t sel) := by
  obtain ⟨dsq, htier, hins⟩ := flowTierInsert_tier (w := w) hm vtime now
  rw [hins]
  refine .quiet (List.forall_mem_append.mpr ⟨?_, untold_kicks t sel⟩)
  simp only [List.forall_mem_cons]
  exact ⟨untold_of_tier htier _ _, rfl, fun _ h => absurd h List.not_mem_nil⟩

theorem flowEnqueuePlace_untold {e : FlowEnqueueTail} (hm : e.cpu.toNat < flowMaxCpus) :
    ∀ x ∈ (flowEnqueuePlace w e).2, x.isUntold = true := by
  rcases flowEnqueuePlace_cases (w := w) hm with h | ⟨dsq, htier, h⟩
  · rw [h]
    simp [Effect.isUntold]
  · rw [h]
    simpa using untold_of_tier htier _ _

/-- A reject at a gate, with the value of one verdict. -/
theorem tells_gate (share : UInt32) (b : Bool) (flags : UInt64) (t : Option FlowTaskCtx) (sel : ℤ) :
    Tells [⟨.rejectValue share, b⟩] ([.count .gateRejects 1,
      flowOverflowInsert flags (flowRedValue share b)] ++ flowKickIdleAllowed w k p t sel) := by
  refine Tells.before ?_ (untold_kicks t sel)
  constructor
  case preempts => simp [flowOverflowInsert, Verdict.preempts]
  case rejects => simp [flowOverflowInsert, Verdict.rejects]
  case values => simp [flowOverflowInsert, Verdict.value?]

/-- An effect in front that no verdict decides. -/
theorem untold_one {e : Effect} (h : e.isUntold = true) : ∀ e' ∈ [e], e'.isUntold = true :=
  fun _ he => (List.mem_singleton.mp he).symm ▸ h

theorem untold_countIf {c : Counter} (hc : c ≠ .redRejects) (b : Prop) [Decidable b] :
    ∀ e ∈ (if b then [Effect.count c 1] else []), e.isUntold = true := by
  split
  · refine untold_one ?_
    cases c with
    | redRejects => exact absurd rfl hc
    | _ => rfl
  · exact fun _ h => absurd h List.not_mem_nil

end Effects

section Paths

theorem untold_freshVerdicts (o : FlowOpenTail) : ∀ v ∈ freshVerdicts o, v.isUntold = true := by
  unfold freshVerdicts
  simp only
  split
  · simp [Verdict.isUntold, Verdict.preempts, Verdict.rejects, Verdict.value?]
  · simp [Verdict.isUntold, Verdict.preempts, Verdict.rejects, Verdict.value?]

/-- A RED check that rejects tells its count and its value, and one that admits tells nothing. -/
theorem rejectVerdicts_tells (r : FlowRejectTail) :
    Tells (rejectVerdicts r) ((flowEnqueueReject w k p r).getD []) := by
  unfold rejectVerdicts flowEnqueueReject
  simp only
  rcases hred : flowRedShouldReject r.deadline r.now r.avg r.slice r.isLat with _ | _
  · simp only [Bool.not_false, ↓reduceIte, Option.getD_none]
    refine .untold ?_ fun _ h => absurd h List.not_mem_nil
    simp [Verdict.isUntold, Verdict.preempts, Verdict.rejects, Verdict.value?, hred]
  · simp only [Bool.not_true, Bool.false_eq_true, ↓reduceIte, Option.getD_some]
    refine Tells.before ?_ (untold_kicks _ _)
    constructor
    case preempts => simp [flowOverflowInsert, Verdict.preempts]
    case rejects => simp [flowOverflowInsert, Verdict.rejects, hred]
    case values => simp [flowOverflowInsert, Verdict.value?]

theorem kickBusyVerdicts_tells (t : FlowTaskCtx) (e : FlowEnqueueTail) (pid : UInt32) :
    Tells (kickBusyVerdicts w k p t e pid) (flowEnqueueKickBusy w k p t e pid) := by
  unfold kickBusyVerdicts flowEnqueueKickBusy
  rcases k.taskFromPid pid with _ | trusted
  · exact .nil
  simp only
  by_cases hcpu : (k.task trusted).taskCpu ≠ e.cpu
  · rw [if_pos hcpu, if_pos hcpu]
    exact .nil
  rw [if_neg hcpu, if_neg hcpu]
  rcases Function.update w.taskCtx p (some t) trusted with _ | octx
  · exact .nil
  simp only
  by_cases hd : octx.deadline = 0
  · rw [if_pos hd, if_pos hd]
    exact .nil
  rw [if_neg hd, if_neg hd]
  rcases hok : flowPreemptOk e.vtime octx.deadline e.now octx.runAt octx.sliceNs
    (flowCtxIsLat t e.arrSleep) (flowCtxIsLat octx 0) with _ | _
  · have hskip : Tells [⟨.preempt e.vtime octx.deadline e.now octx.runAt octx.sliceNs
        (flowCtxIsLat octx 0), flowCtxIsLat t e.arrSleep⟩] [.count .preemptSkipped 1] := by
      refine .untold ?_ (untold_one rfl)
      simp [Verdict.isUntold, Verdict.preempts, Verdict.rejects, Verdict.value?, hok]
    simpa [hok] using hskip
  · have hlat : flowCtxIsLat t e.arrSleep = true :=
      Verdict.isLat_of_preempts ⟨.preempt e.vtime octx.deadline e.now octx.runAt octx.sliceNs
        (flowCtxIsLat octx 0), flowCtxIsLat t e.arrSleep⟩ hok
    rw [hlat] at hok ⊢
    simp only [Bool.not_true, Bool.false_eq_true, ↓reduceIte]
    constructor
    case preempts => simp [Verdict.preempts, hok]
    case rejects => simp [Verdict.rejects]
    case values => simp [Verdict.value?]

theorem kickVerdicts_tells (t : FlowTaskCtx) (e : FlowEnqueueTail) :
    Tells (kickVerdicts w k p t e) (flowEnqueueKick w k p t e) := by
  unfold kickVerdicts flowEnqueueKick
  rcases flowCpu w e.cpu.toNat with _ | st
  · exact .nil
  simp only
  split_ifs
  · exact .quiet (untold_one rfl)
  · exact .quiet (by simp [Effect.isUntold])
  · exact .nil
  · exact .nil
  · exact kickBusyVerdicts_tells t e st.runningPid

theorem openJoinVerdicts_tells {cpu : ℤ} (hm : cpu.toNat < flowMaxCpus) (t : FlowTaskCtx)
    (out : FlowOpenOut) (enqFlags : UInt64) :
    Tells (openJoinVerdicts w k p t out cpu enqFlags) (flowOpenJoin w k p t out cpu enqFlags) := by
  unfold openJoinVerdicts flowOpenJoin
  simp only
  generalize FlowRejectTail.mk _ _ _ _ _ _ _ _ _ = rej
  have hred := rejectVerdicts_tells (w := w) (k := k) (p := p) rej
  rcases hr : flowEnqueueReject w k p rej with _ | es
  · rw [hr] at hred
    refine hred.silent (.behind ?_ ?_)
    · exact List.forall_mem_append.mpr ⟨untold_one rfl, flowEnqueuePlace_untold hm⟩
    · rw [if_neg (by simp)]
      split
      · exact .nil
      · exact kickVerdicts_tells t _
  · rw [hr] at hred
    simpa using hred

theorem pinnedJoinVerdicts_tells (t : FlowTaskCtx) (out : FlowOpenOut) (pc : ℤ)
    (enqFlags : UInt64) :
    Tells (pinnedJoinVerdicts w k p t out pc enqFlags)
      (flowPinnedJoin w k p t out pc enqFlags).eff := by
  unfold pinnedJoinVerdicts flowPinnedJoin
  simp only
  generalize FlowRejectTail.mk _ _ _ _ _ _ _ _ _ = rej
  have hred := rejectVerdicts_tells (w := w) (k := k) (p := p) rej
  rcases hr : flowEnqueueReject w k p rej with _ | es
  · rw [hr] at hred
    refine hred.silent ?_
    rw [if_neg (by simp)]
    simp only
    split
    · rename_i hok
      exact tells_tierInsert (flowCpuOk_iff.mp hok).2.2.1 _ _ _ _
    · exact tells_gate _ _ _ _ _
  · rw [hr] at hred
    simpa using hred

theorem rejoinVerdicts_tells {m : FlowMissTail} (hm : m.cpu.toNat < flowMaxCpus) :
    Tells (rejoinVerdicts m) (flowEnqueueRejoin w k p m).eff := by
  unfold rejoinVerdicts flowEnqueueRejoin
  simp only
  generalize FlowRejectTail.mk _ _ _ _ _ _ _ _ _ = rej
  have hred := rejectVerdicts_tells (w := w) (k := k) (p := p) rej
  refine .behind (by simp [Effect.isUntold]) ?_
  rcases hr : flowEnqueueReject w k p rej with _ | es
  · rw [hr] at hred
    simpa using hred.append (tells_tierInsert hm _ _ _ _)
  · rwa [hr] at hred

theorem pinnedVerdicts_tells (t : FlowTaskCtx) (enqFlags : UInt64) :
    Tells (pinnedVerdicts w k p t enqFlags) (flowEnqueuePinned w k p t enqFlags).eff := by
  have hwait (t : FlowTaskCtx) (pc : ℤ) : Tells (pinnedWaitVerdicts w k p t pc enqFlags)
      (flowPinnedWait w k p t pc enqFlags).eff := by
    unfold pinnedWaitVerdicts flowPinnedWait
    simp only
    have hfair : Tells (pinnedFairVerdicts ⟨flowPinnedCtx t k.now, (flowPinnedCtx t k.now).deadline,
        k.now, enqFlags, (flowPinnedCtx t k.now).hintUs, (flowPinnedCtx t k.now).hintW,
        (flowPinnedCtx t k.now).avgNs.toUInt64, (flowPinnedCtx t k.now).devNs.toUInt64,
        isReenq enqFlags⟩ (flowPinnedMissed t k.now)) [] := by
      refine .untold ?_ fun _ h => absurd h List.not_mem_nil
      unfold pinnedFairVerdicts
      split
      · exact fun _ h => absurd h List.not_mem_nil
      · split
        · exact untold_freshVerdicts _
        · exact fun _ h => absurd h List.not_mem_nil
    refine hfair.silent (.behind (List.forall_mem_append.mpr ⟨?_, untold_one rfl⟩)
      (pinnedJoinVerdicts_tells _ _ _ _))
    exact untold_countIf (by decide) _
  unfold pinnedVerdicts flowEnqueuePinned
  exact .behind (untold_of_isPrep (flowEnqueueHint_isPrep w k p t enqFlags)) (hwait _ _)

theorem admitVerdicts_tells {cpu : ℤ} (hm : cpu.toNat < flowMaxCpus) (t : FlowTaskCtx)
    (enqFlags : UInt64) :
    Tells (admitVerdicts w k p t cpu enqFlags) (flowEnqueueAdmit w k p t cpu enqFlags).eff := by
  unfold admitVerdicts flowEnqueueAdmit
  simp only
  refine .silent (.untold ?_ fun _ h => absurd h List.not_mem_nil)
    (.behind (untold_one rfl) (openJoinVerdicts_tells hm _ _ _))
  unfold openVerdicts
  split
  · exact untold_freshVerdicts _
  · exact fun _ h => absurd h List.not_mem_nil

theorem liveVerdicts_tells {cpu : ℤ} (hm : cpu.toNat < flowMaxCpus) (t : FlowTaskCtx)
    (enqFlags : UInt64) :
    Tells (liveVerdicts w k p t cpu enqFlags) (flowEnqueueLive w k p t cpu enqFlags).eff := by
  unfold liveVerdicts flowEnqueueLive
  simp only
  refine .behind (List.forall_mem_append.mpr ⟨untold_countIf (by decide) _,
    untold_of_isPrep (flowEnqueueHint_isPrep w k p t enqFlags)⟩) ?_
  rw [flowEnqueueMiss_eq]
  simp only
  split
  · simp only [Option.isSome_some, ↓reduceIte, Option.getD_some]
    exact rejoinVerdicts_tells hm
  · simp only [Option.isSome_none, Bool.false_eq_true, ↓reduceIte, Option.getD_none]
    exact admitVerdicts_tells hm _ enqFlags

theorem flowEnqueueExiting_untold {es : List Effect}
    (h : flowEnqueueExiting w k p enqFlags = some es) : ∀ e ∈ es, e.isUntold = true := by
  unfold flowEnqueueExiting at h
  simp only at h
  split at h
  · obtain rfl := Option.some.inj h
    refine List.forall_mem_append.mpr ⟨untold_one rfl, ?_⟩
    split
    · simp [Effect.isUntold]
    · exact fun _ h => absurd h List.not_mem_nil
  · cases h

theorem gateMissVerdicts_tells (enqFlags : UInt64) :
    Tells (gateMissVerdicts w p) (flowEnqueueGateMiss w k p enqFlags).eff := by
  unfold gateMissVerdicts flowEnqueueGateMiss
  rcases w.taskCtx p with _ | t
  · exact tells_gate _ _ _ _ _
  · exact tells_gate _ _ _ _ _

theorem noStateVerdicts_tells (enqFlags : UInt64) :
    Tells (noStateVerdicts w k p) (flowEnqueueNoState w k p enqFlags).eff := by
  unfold noStateVerdicts flowEnqueueNoState
  simp only
  split
  · rename_i hok
    rw [List.append_assoc]
    exact .behind (untold_of_isPrep (flowTaskHintWeight_isPrep w k p))
      (tells_tierInsert (flowCpuOk_iff.mp hok).2.2.1 _ _ _ _)
  · rw [List.append_assoc]
    exact .behind (untold_of_isPrep (flowTaskHintWeight_isPrep w k p)) (tells_gate _ _ _ _ _)

/-- An enqueue rejects, values what it rejects and preempts exactly as its verdicts decide. -/
theorem flowEnqueueVerdicts_tells (w : World) (k : Kernel) (p : TaskRef) (enqFlags : UInt64) :
    Tells (flowEnqueueVerdicts w k p enqFlags) (flowEnqueue w k p enqFlags).eff := by
  unfold flowEnqueueVerdicts flowEnqueue
  simp only
  rcases hx : flowEnqueueExiting w k p enqFlags with _ | es
  swap
  · exact .quiet (flowEnqueueExiting_untold hx)
  simp only [Option.isSome_none, Bool.false_eq_true, ↓reduceIte]
  split
  · exact gateMissVerdicts_tells enqFlags
  rcases flowGet w k p with _ | t
  · exact noStateVerdicts_tells enqFlags
  simp only
  split
  · exact pinnedVerdicts_tells _ enqFlags
  · split
    · exact tells_gate _ _ _ _ _
    · rename_i hok
      have hlive : flowCpuOk w (k.task p) (flowPickTarget w k p (k.task p).selectedCpu) = true := by
        simpa using hok
      exact liveVerdicts_tells (flowCpuOk_iff.mp hlive).2.2.1 _ enqFlags

end Paths

end ScxFlow
