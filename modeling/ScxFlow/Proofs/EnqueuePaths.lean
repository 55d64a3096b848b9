import ScxFlow.Proofs.EnqueueShape

/-!
# How an enqueue ends

`flow_enqueue` ends in one of four ways: the exiting insertion, a reject join, a rejoin of the
target's tiers, or the open path, which bypasses or joins a tier and may kick.  `flowEnqueue_ends`
says which with everything the last steps read; the kick, the preemption and the routing results
split on it.
-/

namespace ScxFlow

variable {w : World} {k : Kernel} {p : TaskRef} {enqFlags : UInt64}

/-- The effects of an enqueue before its last steps. -/
def Effect.isSetup : Effect → Bool
  | .count .inserts _ | .count .misses _ | .cacheFill _ _ | .storeDeadline _ => true
  | _ => false

theorem isSetup_of_isPrep {e : Effect} (h : e.isPrep = true) : e.isSetup = true := by
  cases e with
  | count c n => cases c <;> simp_all [Effect.isPrep, Effect.isSetup]
  | cacheFill => rfl
  | _ => simp [Effect.isPrep] at h

/-- The CPU an enqueue aims at. -/
def enqueueTarget (w : World) (k : Kernel) (p : TaskRef) : ℤ :=
  flowPickTarget w k p (k.task p).selectedCpu

/-- The storage and the tail with which the open path gets to its kick, where the call takes it. -/
def openTail (w : World) (k : Kernel) (p : TaskRef) (enqFlags : UInt64) :
    Option (FlowTaskCtx × FlowEnqueueTail) :=
  if (flowEnqueueExiting w k p enqFlags).isSome || gateClosed w (k.task p) then none
  else
    match flowGet w k p with
    | none => none
    | some t =>
      let t := flowEnqueueDefaults t
      if flowTaskPinned (k.task p) || noTarget w k p then none
      else
        let cpu := enqueueTarget w k p
        let h := (flowEnqueueHint w k p t enqFlags).1
        let t := flowClampToMin w { t with hintUs := h.1, hintW := h.2 } cpu.toNat
        if flowMissed t.deadline k.now then none
        else openOf w k p t cpu enqFlags
where
  /-- The open path from the fresh deadline to the kick. -/
  openOf (w : World) (k : Kernel) (p : TaskRef) (t : FlowTaskCtx) (cpu : ℤ) (enqFlags : UInt64) :
      Option (FlowTaskCtx × FlowEnqueueTail) :=
    let deadline := flowPredDeadline k.now t.avgNs.toUInt64 t.devNs.toUInt64 t.hintUs
    let f := flowEnqueueOpen ⟨{ t with deadline := deadline }, deadline, k.now, enqFlags, t.hintUs,
      t.hintW, t.avgNs.toUInt64, t.devNs.toUInt64, isReenq enqFlags⟩
    let costSl := if f.2.isFresh && !isPreempt enqFlags then f.2.preSlice else f.1.sliceNs
    let rej : FlowRejectTail := ⟨f.1, f.1.deadline, k.now, f.1.avgNs.toUInt64, costSl, f.2.isLat,
      f.1.hintW, enqFlags, (k.task p).selectedCpu⟩
    if (flowEnqueueReject w k p rej).isSome then none
    else
      let elig := flowEligible f.1.vruntime (flowCpuMin w cpu.toNat) f.1.vlag
      some (f.1, ⟨cpu, f.2.vtime, k.now, enqFlags, f.2.sleepNs, isReenq enqFlags, elig⟩)

/-- How an enqueue ends, with the open tail it has and the storage it returns. -/
inductive Ends (w : World) (k : Kernel) (p : TaskRef) (enqFlags : UInt64) :
    Option (FlowTaskCtx × FlowEnqueueTail) → Option FlowTaskCtx → List Effect → Prop
  | exiting {ctx : Option FlowTaskCtx} (cpu : ℤ)
    (hx : (flowEnqueueExiting w k p enqFlags).isSome = true)
    (hok : flowCpuOk w (k.task p) cpu = true) :
    Ends w k p enqFlags none ctx ([.insert (scxLocalOn cpu.toNat) enqFlags]
      ++ if cpuIdle w cpu.toNat then [.kickIdle cpu, .count .kicks 1] else [])
  | rejected {ctx : Option FlowTaskCtx} (c : Counter) (hc : c = .gateRejects ∨ c = .redRejects)
    (key flags : UInt64) :
    Ends w k p enqFlags none ctx ([.count c 1, .insertVtime flowOverflowDsq key flags]
      ++ flowKickIdleAllowed w k p ctx (k.task p).selectedCpu)
  | rejoined {ctx : Option FlowTaskCtx} (vtime : UInt64)
    (hok : flowCpuOk w (k.task p) (enqueueTarget w k p) = true) :
    Ends w k p enqFlags none ctx
      ([flowTierInsert w (enqueueTarget w k p) vtime k.now, .count .admits 1]
        ++ flowKickIdleAllowed w k p ctx (k.task p).selectedCpu)
  | placed (t : FlowTaskCtx) (e : FlowEnqueueTail) (hcpu : e.cpu = enqueueTarget w k p)
    (hok : flowCpuOk w (k.task p) e.cpu = true) (hnow : e.now = k.now)
    (helig : e.hoistElig = flowEligible t.vruntime (flowCpuMin w e.cpu.toNat) t.vlag) :
    Ends w k p enqFlags (some (t, e)) (some t) ([.count .admits 1] ++ (flowEnqueuePlace w e).2
      ++ if (flowEnqueuePlace w e).1 then [] else flowEnqueueKick w k p t e)

/-- An enqueue sets up, then ends. -/
def SetsUpThenEnds (w : World) (k : Kernel) (p : TaskRef) (enqFlags : UInt64)
    (tail : Option (FlowTaskCtx × FlowEnqueueTail)) (o : OpOut) : Prop :=
  ∃ pre rest, o.eff = pre ++ rest ∧ (∀ e ∈ pre, e.isSetup = true)
    ∧ Ends w k p enqFlags tail o.ctx rest

section Ends

theorem SetsUpThenEnds.prepend {tail : Option (FlowTaskCtx × FlowEnqueueTail)} {o : OpOut}
    {pre : List Effect} (h : SetsUpThenEnds w k p enqFlags tail o)
    (hp : ∀ e ∈ pre, e.isSetup = true) :
    SetsUpThenEnds w k p enqFlags tail ⟨o.ctx, pre ++ o.eff⟩ := by
  obtain ⟨pre', rest, heff, hp', hends⟩ := h
  refine ⟨pre ++ pre', rest, by simp [heff], fun e he => ?_, hends⟩
  rcases List.mem_append.mp he with he | he
  · exact hp e he
  · exact hp' e he

theorem ends_of_reject {t : FlowTaskCtx} {r : FlowRejectTail} {es : List Effect}
    (h : flowEnqueueReject w k p r = some es) (ht : r.tctx = t)
    (hs : r.sel = (k.task p).selectedCpu) : Ends w k p enqFlags none (some t) es := by
  unfold flowEnqueueReject at h
  split at h
  · cases h
  · obtain rfl := Option.some.inj h
    rw [ht, hs]
    exact .rejected .redRejects (Or.inr rfl) _ _

theorem flowEnqueueRejoin_ends {m : FlowMissTail} (hcpu : m.cpu = enqueueTarget w k p)
    (hok : flowCpuOk w (k.task p) m.cpu = true) (hnow : m.now = k.now)
    (hs : m.sel = (k.task p).selectedCpu) :
    SetsUpThenEnds w k p enqFlags none (flowEnqueueRejoin w k p m) := by
  unfold flowEnqueueRejoin
  refine ⟨[.count .misses 1, .storeDeadline (flowMissCtx m).deadline], _, rfl,
    by simp [Effect.isSetup], ?_⟩
  simp only
  split
  · rename_i es hr
    exact ends_of_reject hr rfl hs
  · rw [hcpu, hnow, hs]
    exact .rejoined _ (hcpu ▸ hok)

theorem flowPinnedJoin_ends (t : FlowTaskCtx) (out : FlowOpenOut) (enqFlags : UInt64) :
    Ends w k p enqFlags none (flowPinnedJoin w k p t out (enqueueTarget w k p) enqFlags).ctx
      (flowPinnedJoin w k p t out (enqueueTarget w k p) enqFlags).eff := by
  unfold flowPinnedJoin
  simp only
  split
  · rename_i es hr
    exact ends_of_reject hr rfl rfl
  · split
    · rename_i hok
      exact .rejoined _ hok
    · exact .rejected .gateRejects (Or.inl rfl) _ _

theorem flowEnqueuePinned_ends (t : FlowTaskCtx) (enqFlags : UInt64) :
    SetsUpThenEnds w k p enqFlags none (flowEnqueuePinned w k p t enqFlags) := by
  have hwait (t : FlowTaskCtx) :
      SetsUpThenEnds w k p enqFlags none
        (flowPinnedWait w k p t (enqueueTarget w k p) enqFlags) := by
    unfold flowPinnedWait
    simp only
    refine ⟨_, _, rfl, fun e he => ?_, flowPinnedJoin_ends _ _ enqFlags⟩
    rcases List.mem_append.mp he with he | he
    · split at he
      · rw [List.mem_singleton.mp he]
        rfl
      · simp at he
    · rw [List.mem_singleton.mp he]
      rfl
  unfold flowEnqueuePinned
  exact (hwait _).prepend fun e he =>
    isSetup_of_isPrep (flowEnqueueHint_isPrep w k p t enqFlags e he)

theorem flowEnqueueAdmit_ends {t : FlowTaskCtx} {cpu : ℤ} (hcpu : cpu = enqueueTarget w k p)
    (hok : flowCpuOk w (k.task p) cpu = true) (enqFlags : UInt64) :
    SetsUpThenEnds w k p enqFlags (openTail.openOf w k p t cpu enqFlags)
      (flowEnqueueAdmit w k p t cpu enqFlags) := by
  unfold flowEnqueueAdmit openTail.openOf flowOpenJoin
  simp only
  generalize hf : flowEnqueueOpen _ = f
  refine ⟨[.storeDeadline _], _, rfl, by simp [Effect.isSetup], ?_⟩
  generalize hr : flowEnqueueReject w k p _ = r
  rcases r with _ | es
  · exact .placed f.1 _ hcpu hok rfl rfl
  · exact ends_of_reject hr rfl rfl

theorem flowEnqueueLive_ends {t : FlowTaskCtx} {cpu : ℤ} (hcpu : cpu = enqueueTarget w k p)
    (hok : flowCpuOk w (k.task p) cpu = true) (enqFlags : UInt64) :
    SetsUpThenEnds w k p enqFlags
      (let h := (flowEnqueueHint w k p t enqFlags).1
        let t := flowClampToMin w { t with hintUs := h.1, hintW := h.2 } cpu.toNat
        if flowMissed t.deadline k.now then none else openTail.openOf w k p t cpu enqFlags)
      (flowEnqueueLive w k p t cpu enqFlags) := by
  unfold flowEnqueueLive
  simp only
  refine SetsUpThenEnds.prepend ?_ fun e he => ?_
  · rw [flowEnqueueMiss_eq]
    simp only
    split
    · exact flowEnqueueRejoin_ends hcpu hok rfl rfl
    · exact flowEnqueueAdmit_ends hcpu hok enqFlags
  · rcases List.mem_append.mp he with he | he
    · split at he
      · rw [List.mem_singleton.mp he]
        rfl
      · simp at he
    · exact isSetup_of_isPrep (flowEnqueueHint_isPrep w k p t enqFlags e he)

end Ends

section WholeOp

theorem flowEnqueueExiting_ends {es : List Effect} {ctx : Option FlowTaskCtx}
    (h : flowEnqueueExiting w k p enqFlags = some es) : Ends w k p enqFlags none ctx es := by
  have hx : (flowEnqueueExiting w k p enqFlags).isSome = true := by rw [h]; rfl
  unfold flowEnqueueExiting at h
  simp only at h
  split at h
  · rename_i hc
    obtain rfl := Option.some.inj h
    exact .exiting _ hx (Bool.and_eq_true_iff.mp hc).2
  · cases h

theorem flowEnqueueGateMiss_ends (enqFlags : UInt64) :
    SetsUpThenEnds w k p enqFlags none (flowEnqueueGateMiss w k p enqFlags) := by
  obtain ⟨val, heff⟩ := flowEnqueueGateMiss_eff w k p enqFlags
  exact ⟨[], _, heff, by simp, .rejected .gateRejects (Or.inl rfl) _ _⟩

theorem flowEnqueueNoState_ends (enqFlags : UInt64) :
    SetsUpThenEnds w k p enqFlags none (flowEnqueueNoState w k p enqFlags) := by
  have hp : ∀ e ∈ (flowTaskHintWeight w k p).2, e.isSetup = true := fun e he =>
    isSetup_of_isPrep (flowTaskHintWeight_isPrep w k p e he)
  unfold flowEnqueueNoState
  simp only
  split
  · rename_i hok
    exact ⟨_, _, List.append_assoc _ _ _, hp, .rejoined _ hok⟩
  · exact ⟨_, _, List.append_assoc _ _ _, hp, .rejected .gateRejects (Or.inl rfl) _ _⟩

theorem flowEnqueueHomeless_ends (t : FlowTaskCtx) (enqFlags : UInt64) :
    SetsUpThenEnds w k p enqFlags none (flowEnqueueHomeless w k p t enqFlags) :=
  ⟨[], _, rfl, by simp, .rejected .gateRejects (Or.inl rfl) _ _⟩

/-- Every enqueue sets up and ends, on the open path exactly where it has an open tail. -/
theorem flowEnqueue_ends (w : World) (k : Kernel) (p : TaskRef) (enqFlags : UInt64) :
    SetsUpThenEnds w k p enqFlags (openTail w k p enqFlags) (flowEnqueue w k p enqFlags) := by
  unfold flowEnqueue openTail
  simp only
  rcases hx : flowEnqueueExiting w k p enqFlags with _ | es
  swap
  · exact ⟨[], es, rfl, by simp, by simpa using flowEnqueueExiting_ends hx⟩
  have hgate : (!flowEntryOk w (k.task p) (k.task p).selectedCpu 0
      && !flowEntryOk w (k.task p) (k.task p).taskCpu 0) = gateClosed w (k.task p) := rfl
  simp only [hgate, Option.isSome_none, Bool.false_or]
  split
  · exact flowEnqueueGateMiss_ends enqFlags
  rcases flowGet w k p with _ | t
  · exact flowEnqueueNoState_ends enqFlags
  simp only
  cases hpin : flowTaskPinned (k.task p)
  · have hno : noTarget w k p
        = !flowCpuOk w (k.task p) (flowPickTarget w k p (k.task p).selectedCpu) := rfl
    simp only [Bool.false_eq_true, ↓reduceIte, Bool.false_or, hno]
    split
    · exact flowEnqueueHomeless_ends _ enqFlags
    · rename_i hok
      have hok' : flowCpuOk w (k.task p) (enqueueTarget w k p) = true := by
        unfold enqueueTarget
        simpa using hok
      exact flowEnqueueLive_ends rfl hok' enqFlags
  · simp only [↓reduceIte, Bool.true_or]
    exact flowEnqueuePinned_ends _ enqFlags

end WholeOp

end ScxFlow
