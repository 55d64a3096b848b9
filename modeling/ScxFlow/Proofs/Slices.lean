import ScxFlow.Enqueue
import ScxFlow.Lifecycle
import ScxFlow.Proofs.TaskBounds

/-!
# Slices and hints stay in range

Every slice the scheduler stores lies within the fixed quantum, and every hint it reads comes from a
row, so both keep the range the RED guarantee needs.
-/

namespace ScxFlow

section Slices

theorem SliceIn.ok {s : UInt32} (h : SliceIn s) : SliceOk s := h.2

theorem sliceOk_quantum : SliceOk flowQuantumNs.toUInt32 := sliceIn_quantum.2

theorem sliceOk_min : SliceOk flowSliceMinNs.toUInt32 := sliceIn_min.2

theorem sliceOk_zero : SliceOk 0 := Nat.zero_le _

theorem SliceOk.of_le {s s' : UInt32} (h : SliceOk s') (hle : s.toNat ≤ s'.toNat) : SliceOk s :=
  hle.trans h

theorem flowSliceLatClamp_le (slice : UInt32) (isLat : Bool) :
    (flowSliceLatClamp slice isLat).toNat ≤ slice.toNat := by
  unfold flowSliceLatClamp
  split_ifs with h
  · simp only [Bool.and_eq_true, decide_eq_true_eq, gt_iff_lt, UInt32.lt_iff_toNat_lt] at h
    omega
  · exact le_refl _

theorem flowSliceTierCap_le (pre : UInt32) (avg dev : UInt64) (isLat : Bool) :
    (flowSliceTierCap pre avg dev isLat).toNat ≤ pre.toNat := by
  unfold flowSliceTierCap
  simp only
  split_ifs with h₁ h₂ h₂
  · rw [gt_iff_lt, UInt32.lt_iff_toNat_lt] at h₂
    omega
  · exact le_refl _
  · rw [gt_iff_lt, UInt32.lt_iff_toNat_lt] at h₂
    omega
  · exact le_refl _

theorem flowSliceInherit_ok {cur : UInt32} (h : SliceOk cur) : SliceOk (flowSliceInherit cur) := by
  unfold flowSliceInherit
  split_ifs
  · exact sliceOk_quantum
  · exact h

theorem flowSliceMissHold_ok {cur : UInt32} (h : SliceOk cur) :
    SliceOk (flowSliceMissHold cur) := by
  unfold flowSliceMissHold
  simp only
  split_ifs
  · exact sliceOk_min
  · exact flowSliceInherit_ok h

theorem flowSliceResume_ok (occStart now : UInt64) (occLat : Bool) {cur : UInt32}
    (h : SliceOk cur) : SliceOk (flowSliceResume occStart now occLat cur) := by
  obtain ⟨hmin, hmax⟩ := resumeCap_in occLat
  unfold flowSliceResume
  simp only
  split
  · exact flowSliceInherit_ok h
  split
  · exact flowSliceInherit_ok h
  · exact (sliceIn_clamp hmin hmax _).ok

end Slices

section TaskRows

/-- The hint and the slice of a task are in range. -/
structure TaskOk (t : FlowTaskCtx) : Prop where
  hint : HintOk t.hintUs
  slice : SliceOk t.sliceNs

/-- So are those of a storage, if it holds any. -/
def CtxOk (c : Option FlowTaskCtx) : Prop := ∀ t, c = some t → TaskOk t

/-- Every hint row has a period in range. -/
def RowsOk (w : World) : Prop := ∀ id row, w.hintStor id = some row → HintOk row.periodUs

theorem ctxOk_none : CtxOk none := by
  intro t h
  simp at h

theorem ctxOk_some {t : FlowTaskCtx} : CtxOk (some t) ↔ TaskOk t :=
  ⟨fun h => h t rfl, fun h t' ht => by rw [← Option.some.inj ht]; exact h⟩

theorem taskOk_zero : TaskOk FlowTaskCtx.zero := ⟨Or.inl rfl, by decide⟩

theorem taskOk_fresh : TaskOk FlowTaskCtx.fresh := ⟨Or.inl rfl, by decide⟩

variable {w : World} {k : Kernel} {p : TaskRef}

theorem RowsOk.hintRow (h : RowsOk w) (id : UInt64) : HintOk (flowHintRow w id).1 := by
  unfold flowHintRow
  split
  · exact Or.inl rfl
  · rename_i row hrow
    exact h id row hrow

theorem RowsOk.hintWeight (h : RowsOk w) : HintOk (flowTaskHintWeight w k p).1.1 := by
  rcases flowTaskHintWeight_row w k p with ⟨id, he⟩ | he
  · rw [he]
    exact h.hintRow id
  · rw [he]
    exact Or.inl rfl

theorem RowsOk.enqueueHint (h : RowsOk w) {t : FlowTaskCtx} (ht : TaskOk t) (enqFlags : UInt64) :
    HintOk (flowEnqueueHint w k p t enqFlags).1.1 := by
  unfold flowEnqueueHint
  split
  · exact ht.hint
  · exact h.hintWeight

/-- What a lookup that creates finds: the state stored, or a zeroed one where there was none. -/
theorem flowGet_some {t : FlowTaskCtx} (h : flowGet w k p = some t) :
    w.taskCtx p = some t ∨ w.taskCtx p = none ∧ t = FlowTaskCtx.zero := by
  unfold flowGet at h
  split at h
  · rename_i hs
    exact Or.inl (hs.trans h)
  · rename_i hs
    split at h
    · exact Or.inr ⟨hs, (Option.some.inj h).symm⟩
    · cases h

theorem taskCtx_of_flowGet_none (h : flowGet w k p = none) : w.taskCtx p = none := by
  unfold flowGet at h
  split at h
  · cases h
  · assumption

theorem flowGet_ok (hc : CtxOk (w.taskCtx p)) {t : FlowTaskCtx} (h : flowGet w k p = some t) :
    TaskOk t := by
  rcases flowGet_some h with hs | ⟨-, rfl⟩
  · exact hc t hs
  · exact taskOk_zero

theorem flowEnqueueDefaults_ok {t : FlowTaskCtx} (h : TaskOk t) :
    TaskOk (flowEnqueueDefaults t) := by
  refine ⟨h.hint, ?_⟩
  show SliceOk (if t.sliceNs = 0 then _ else t.sliceNs)
  split_ifs
  · exact sliceOk_quantum
  · exact h.slice

theorem flowEnqueueFresh_ok {o : FlowOpenTail} (h : TaskOk o.tctx) :
    TaskOk (flowEnqueueFresh o).1 ∧ SliceOk (flowEnqueueFresh o).2.preSlice := by
  have hpre (isLat : Bool) :
      SliceOk (flowSliceTierCap (flowSliceFor o.deadline o.now) o.avg o.dev isLat) :=
    (flowSliceFor_in o.deadline o.now).ok.of_le (flowSliceTierCap_le _ _ _ _)
  unfold flowEnqueueFresh flowTakeSleep
  simp only
  split
  · exact ⟨⟨h.hint, h.slice⟩, hpre _⟩
  · exact ⟨⟨h.hint, (hpre _).of_le (flowSliceLatClamp_le _ _)⟩, hpre _⟩

theorem flowEnqueueOpen_ok {o : FlowOpenTail} (h : TaskOk o.tctx) :
    TaskOk (flowEnqueueOpen o).1 ∧ SliceOk (flowEnqueueOpen o).2.preSlice := by
  unfold flowEnqueueOpen flowTakeSleep
  simp only
  split
  · exact flowEnqueueFresh_ok h
  · exact ⟨⟨h.hint, flowSliceInherit_ok h.slice⟩, sliceOk_zero⟩

theorem flowPinnedFair_ok {o : FlowOpenTail} (h : TaskOk o.tctx) (miss : Bool) :
    TaskOk (flowPinnedFair o miss).1 ∧ SliceOk (flowPinnedFair o miss).2.preSlice := by
  unfold flowPinnedFair flowTakeSleep
  simp only
  split
  · exact ⟨⟨h.hint, flowSliceMissHold_ok h.slice⟩, sliceOk_zero⟩
  · split
    · exact flowEnqueueFresh_ok h
    · exact ⟨⟨h.hint, flowSliceInherit_ok h.slice⟩, sliceOk_zero⟩

theorem flowCountMiss_ok {t : FlowTaskCtx} (h : TaskOk t) : TaskOk (flowCountMiss t) := by
  unfold flowCountMiss
  split_ifs
  · exact ⟨h.hint, h.slice⟩
  · exact h

theorem flowMissCtx_ok {m : FlowMissTail} (h : TaskOk m.tctx) : TaskOk (flowMissCtx m) := by
  have hc := flowCountMiss_ok h
  exact ⟨hc.hint, flowSliceMissHold_ok hc.slice⟩

end TaskRows

section Segment

variable {w : World} {k : Kernel} {p : TaskRef}

theorem flowStopCommit_ok {s : FlowStopTail} (h : TaskOk s.tctx) (hs : SliceOk s.slice) :
    TaskOk (flowStopCommit s) := ⟨h.hint, hs⟩

theorem flowStopAdapt_ok {t : FlowTaskCtx} (h : TaskOk t) (now delta : UInt64)
    (miss isLat : Bool) (costAvg : UInt64) :
    TaskOk (flowStopAdapt t now delta miss isLat costAvg) := by
  unfold flowStopAdapt
  simp only
  refine flowStopCommit_ok h ?_
  split
  · exact (flowAdaptProp_in _ _ _).ok.of_le (flowSliceLatClamp_le _ _)
  · exact (flowAdaptProp_in _ _ _).ok

theorem flowStopRunnable_ok {t : FlowTaskCtx} (h : TaskOk t) (start now delta : UInt64)
    (havePred isLat : Bool) (nAvg : UInt64) :
    TaskOk (flowStopRunnable t start now delta havePred isLat nAvg) := by
  unfold flowStopRunnable
  simp only
  split
  · exact flowStopCommit_ok h (flowSliceResume_ok start now isLat h.slice)
  · split
    · exact flowStopCommit_ok h ((flowCarryFor_in delta).ok.of_le (flowSliceLatClamp_le _ _))
    · exact flowStopAdapt_ok h now delta _ isLat _

theorem flowStopCharged_ok {t : FlowTaskCtx} (h : TaskOk t) (delta : UInt64) :
    TaskOk (flowStopCharged t delta) := by
  unfold flowStopCharged
  split
  · exact ⟨h.hint, h.slice⟩
  · exact h

theorem flowStopSegment_ok {t : FlowTaskCtx} (h : TaskOk t) (ts : TaskStruct) (start now : UInt64)
    (runnable : Bool) : CtxOk (flowStopSegment t ts start now runnable).ctx := by
  have hc := flowStopCharged_ok h (flowStopDelta now start)
  unfold flowStopSegment
  simp only
  split
  · exact ctxOk_some.mpr (flowStopRunnable_ok hc _ _ _ _ _ _)
  · refine ctxOk_some.mpr ?_
    split
    · exact flowCountMiss_ok (flowStopAdapt_ok hc _ _ _ _ _)
    · exact flowStopAdapt_ok hc _ _ _ _ _

theorem flowStopping_ok (h : CtxOk (w.taskCtx p)) (runnable : Bool) :
    CtxOk (flowStopping w k p runnable).ctx := by
  unfold flowStopping
  simp only
  split
  · exact h
  · split
    · exact ctxOk_none
    · rename_i t ht
      have hok : TaskOk { t with runAt := 0 } := ⟨(h t ht).hint, (h t ht).slice⟩
      split
      · exact ctxOk_some.mpr hok
      · exact flowStopSegment_ok hok (k.task p) t.runAt k.now runnable

theorem flowRunning_ok (h : CtxOk (w.taskCtx p)) : CtxOk (flowRunning w k p).ctx := by
  unfold flowRunning
  simp only
  split
  · exact h
  · split
    · exact ctxOk_none
    · rename_i t ht
      have hok := h t ht
      split
      · exact ctxOk_some.mpr ⟨hok.hint, hok.slice⟩
      · exact ctxOk_some.mpr hok

/-- An enable leaves the storage or starts it afresh. -/
theorem flowEnable_ctx (w : World) (k : Kernel) (p : TaskRef) :
    (flowEnable w k p).ctx = w.taskCtx p ∨ (flowEnable w k p).ctx = some FlowTaskCtx.fresh := by
  unfold flowEnable
  simp only
  split
  · exact Or.inl rfl
  split
  · rename_i hget
    exact Or.inl (taskCtx_of_flowGet_none hget).symm
  · exact Or.inr rfl

theorem flowEnable_ok (h : CtxOk (w.taskCtx p)) : CtxOk (flowEnable w k p).ctx := by
  rcases flowEnable_ctx w k p with he | he
  · rwa [he]
  · rw [he]
    exact ctxOk_some.mpr taskOk_fresh

end Segment

end ScxFlow
