import ScxFlow.Proofs.Admission
import ScxFlow.Proofs.TaskBounds

/-!
# The task state over whole runs

Every op either leaves a task's storage absent, sets it up with its fields in range, or moves it
from one state in range to another with no smaller vruntime; only an enable starts the vruntime
over.  So along every run from a scheduler without task state each storage is in range.
-/

namespace ScxFlow

variable {w : World} {k : Kernel} {p : TaskRef} {t : FlowTaskCtx}

/-- The fields of a task in range. -/
structure InRange (t : FlowTaskCtx) : Prop where
  slice : SliceIn t.sliceNs
  burst : t.avgNs = 0 ∧ t.devNs = 0 ∨ BurstIn t.avgNs ∧ BurstIn t.devNs
  weight : ShareIn t.weight
  hintW : t.hintW = 0 ∨ ShareIn t.hintW
  vlag : t.vlag = 0
  adaptDelta : t.adaptDelta.toNat ≤ 20000000

/-- A step from one state of a task to the next. -/
structure Later (t t' : FlowTaskCtx) : Prop where
  inRange : InRange t → InRange t'
  vruntime : t.vruntime.toNat ≤ t'.vruntime.toNat

theorem Later.refl (t : FlowTaskCtx) : Later t t := ⟨fun h => h, le_refl _⟩

theorem Later.trans {t t' t'' : FlowTaskCtx} (h : Later t t') (h' : Later t' t'') : Later t t'' :=
  ⟨fun hs => h'.inRange (h.inRange hs), h.vruntime.trans h'.vruntime⟩

/-- The fields that only a stop, a hint or a share writes. -/
def FlowTaskCtx.ledger (t : FlowTaskCtx) : UInt32 × UInt32 × UInt32 × UInt32 × Int32 × UInt32 :=
  (t.avgNs, t.devNs, t.weight, t.hintW, t.vlag, t.adaptDelta)

theorem Later.of_ledger {t t' : FlowTaskCtx} (hl : t'.ledger = t.ledger)
    (hs : SliceIn t.sliceNs → SliceIn t'.sliceNs) (hv : t.vruntime.toNat ≤ t'.vruntime.toNat) :
    Later t t' := by
  obtain ⟨havg, hdev, hw, hh, hlag, hdelta⟩ : t'.avgNs = t.avgNs ∧ t'.devNs = t.devNs
      ∧ t'.weight = t.weight ∧ t'.hintW = t.hintW ∧ t'.vlag = t.vlag
      ∧ t'.adaptDelta = t.adaptDelta := by
    simpa only [FlowTaskCtx.ledger, Prod.mk.injEq] using hl
  refine ⟨fun h => ⟨hs h.slice, ?_, ?_, ?_, ?_, ?_⟩, hv⟩
  · rw [havg, hdev]
    exact h.burst
  · rw [hw]
    exact h.weight
  · rw [hh]
    exact h.hintW
  · rw [hlag]
    exact h.vlag
  · rw [hdelta]
    exact h.adaptDelta

section EnqueueSteps

theorem flowCountMiss_later (t : FlowTaskCtx) : Later t (flowCountMiss t) := by
  rw [flowCountMiss_eq]
  exact .of_ledger rfl (fun h => h) (le_refl _)

theorem flowClampToMin_later (w : World) (t : FlowTaskCtx) (cpu : ℕ) :
    Later t (flowClampToMin w t cpu) := by
  unfold flowClampToMin
  simp only
  generalize (if flowCpuMin w cpu > flowVlagMaxNs then flowCpuMin w cpu - flowVlagMaxNs else 0)
    = floor
  split
  · rename_i h
    exact .of_ledger rfl (fun h => h) (UInt64.lt_iff_toNat_lt.mp h.2).le
  · exact .refl t

theorem flowEnqueueDefaults_later (t : FlowTaskCtx) : Later t (flowEnqueueDefaults t) := by
  refine ⟨fun h => ⟨?_, h.burst, ?_, h.hintW, h.vlag, h.adaptDelta⟩, le_refl _⟩
  · show SliceIn (if t.sliceNs = 0 then _ else t.sliceNs)
    split
    · exact sliceIn_quantum
    · exact h.slice
  · show ShareIn (if t.weight = 0 then _ else t.weight)
    split
    · decide
    · exact h.weight

/-- The state of a create has no history and neutral shares. -/
theorem created_inRange : InRange (flowEnqueueDefaults FlowTaskCtx.zero) :=
  ⟨by decide, Or.inl ⟨rfl, rfl⟩, by decide, Or.inl rfl, rfl, by decide⟩

theorem fresh_inRange : InRange FlowTaskCtx.fresh :=
  ⟨by decide, Or.inl ⟨rfl, rfl⟩, by decide, Or.inr (by decide), rfl, by decide⟩

theorem flowHintRow_in (w : World) (id : UInt64) : ShareIn (flowHintRow w id).2 := by
  unfold flowHintRow
  split
  · decide
  · simp only
    split
    · exact flowWeightClamp_in _
    · decide

theorem flowTaskHintWeight_in (w : World) (k : Kernel) (p : TaskRef) :
    ShareIn (flowTaskHintWeight w k p).1.2 := by
  rcases flowTaskHintWeight_row w k p with ⟨id, he⟩ | he
  · rw [he]
    exact flowHintRow_in w id
  · rw [he]
    decide

/-- The hint a wait stores. -/
theorem flowEnqueueHint_later (w : World) (k : Kernel) (p : TaskRef) (t : FlowTaskCtx)
    (enqFlags : UInt64) : Later t { t with
      hintUs := (flowEnqueueHint w k p t enqFlags).1.1
      hintW := (flowEnqueueHint w k p t enqFlags).1.2 } := by
  refine ⟨fun h => ⟨h.slice, h.burst, h.weight, ?_, h.vlag, h.adaptDelta⟩, le_refl _⟩
  unfold flowEnqueueHint
  split
  · exact h.hintW
  · exact Or.inr (flowTaskHintWeight_in w k p)

theorem flowMissCtx_later (m : FlowMissTail) : Later m.tctx (flowMissCtx m) := by
  refine (flowCountMiss_later m.tctx).trans (.of_ledger rfl (fun h => ?_) (le_refl _))
  exact flowSliceMissHold_in h

theorem flowEnqueueFresh_later (o : FlowOpenTail) : Later o.tctx (flowEnqueueFresh o).1 := by
  unfold flowEnqueueFresh flowTakeSleep
  simp only
  split
  · exact .of_ledger rfl (fun h => h) (le_refl _)
  · exact .of_ledger rfl (fun _ => flowSliceLatClamp_in
      (flowSliceTierCap_in (flowSliceFor_in _ _) _ _ _) _) (le_refl _)

theorem flowEnqueueOpen_later (o : FlowOpenTail) : Later o.tctx (flowEnqueueOpen o).1 := by
  unfold flowEnqueueOpen flowTakeSleep
  simp only
  split
  · exact flowEnqueueFresh_later o
  · exact .of_ledger rfl flowSliceInherit_in (le_refl _)

theorem flowPinnedFair_later (o : FlowOpenTail) (miss : Bool) :
    Later o.tctx (flowPinnedFair o miss).1 := by
  unfold flowPinnedFair flowTakeSleep
  simp only
  split
  · exact .of_ledger rfl flowSliceMissHold_in (le_refl _)
  · split
    · exact flowEnqueueFresh_later o
    · exact .of_ledger rfl flowSliceInherit_in (le_refl _)

theorem flowPinnedCtx_later (t : FlowTaskCtx) (now : UInt64) : Later t (flowPinnedCtx t now) := by
  have hmiss : Later t (if flowPinnedMissed t now then flowCountMiss t else t) := by
    split
    · exact flowCountMiss_later t
    · exact .refl t
  exact hmiss.trans (.of_ledger rfl (fun h => h) (le_refl _))

end EnqueueSteps

section Paths

/-- The storage holds a later state of the task. -/
def LaterIn (t : FlowTaskCtx) (c : Option FlowTaskCtx) : Prop := ∃ t', c = some t' ∧ Later t t'

theorem LaterIn.of_later {t t' : FlowTaskCtx} {c : Option FlowTaskCtx} (h : Later t t')
    (h' : LaterIn t' c) : LaterIn t c := by
  obtain ⟨t'', hc, hl⟩ := h'
  exact ⟨t'', hc, h.trans hl⟩

theorem Later.laterIn {t t' : FlowTaskCtx} (h : Later t t') : LaterIn t (some t') := ⟨t', rfl, h⟩

/-- The stamp of a wait. -/
theorem waits_later (t : FlowTaskCtx) (now : UInt64) : Later t { t with waitAt := now } :=
  .of_ledger rfl (fun h => h) (le_refl _)

theorem flowPinnedJoin_later (t : FlowTaskCtx) (out : FlowOpenOut) (pc : ℤ) (enqFlags : UInt64) :
    LaterIn t (flowPinnedJoin w k p t out pc enqFlags).ctx := by
  unfold flowPinnedJoin
  simp only
  split
  · exact (Later.refl t).laterIn
  · split
    · exact (Later.refl t).laterIn
    · exact (waits_later t k.now).laterIn

theorem flowPinnedWait_later (t : FlowTaskCtx) (pc : ℤ) (enqFlags : UInt64) :
    LaterIn t (flowPinnedWait w k p t pc enqFlags).ctx :=
  .of_later (flowPinnedCtx_later t k.now)
    (.of_later (flowPinnedFair_later ⟨flowPinnedCtx t k.now, _, _, _, _, _, _, _, _⟩ _)
      (flowPinnedJoin_later _ _ pc enqFlags))

theorem flowEnqueuePinned_later (t : FlowTaskCtx) (enqFlags : UInt64) :
    LaterIn t (flowEnqueuePinned w k p t enqFlags).ctx := by
  refine .of_later (flowEnqueueHint_later w k p t enqFlags) ?_
  unfold flowEnqueuePinned
  simp only
  split
  · exact .of_later (flowClampToMin_later w _ _) (flowPinnedWait_later _ _ enqFlags)
  · exact flowPinnedWait_later _ _ enqFlags

theorem flowEnqueueAdmit_later (t : FlowTaskCtx) (cpu : ℤ) (enqFlags : UInt64) :
    LaterIn t (flowEnqueueAdmit w k p t cpu enqFlags).ctx := by
  have hdeadline (dl : UInt64) : Later t { t with deadline := dl } :=
    .of_ledger rfl (fun h => h) (le_refl _)
  exact .of_later (hdeadline _)
    (flowEnqueueOpen_later ⟨{ t with deadline := _ }, _, _, _, _, _, _, _, _⟩).laterIn

theorem flowEnqueueLive_later (t : FlowTaskCtx) (cpu : ℤ) (enqFlags : UInt64) :
    LaterIn t (flowEnqueueLive w k p t cpu enqFlags).ctx := by
  refine .of_later ((flowEnqueueHint_later w k p t enqFlags).trans
    (flowClampToMin_later w _ cpu.toNat)) ?_
  unfold flowEnqueueLive flowEnqueueMiss
  simp only
  split
  · exact flowEnqueueAdmit_later _ cpu enqFlags
  · split
    · exact flowEnqueueAdmit_later _ cpu enqFlags
    · exact (flowMissCtx_later ⟨_, _, _, _, _, _, _, _, _⟩).laterIn

/-- From one storage of a task to the next: absent, set up in range, or later. -/
inductive Onward : Option FlowTaskCtx → Option FlowTaskCtx → Prop
  | absent : Onward none none
  | created {t' : FlowTaskCtx} (h : InRange t') : Onward none (some t')
  | later {t t' : FlowTaskCtx} (h : Later t t') : Onward (some t) (some t')

theorem LaterIn.onward {c c' : Option FlowTaskCtx} (h : LaterIn t c) (h' : Onward c c') :
    LaterIn t c' := by
  obtain ⟨t', rfl, hlater⟩ := h
  cases h' with
  | later hlater' => exact (hlater.trans hlater').laterIn

theorem Onward.refl : ∀ c : Option FlowTaskCtx, Onward c c
  | none => .absent
  | some t => .later (.refl t)

/-- A state that was stored or created, and what an enqueue makes of it. -/
theorem Onward.of_flowGet {c : Option FlowTaskCtx} (hget : flowGet w k p = some t)
    (h : LaterIn (flowEnqueueDefaults t) c) : Onward (w.taskCtx p) c := by
  obtain ⟨t', rfl, hlater⟩ := h
  rcases flowGet_some hget with hs | ⟨hs, rfl⟩
  · rw [hs]
    exact .later ((flowEnqueueDefaults_later t).trans hlater)
  · rw [hs]
    exact .created (hlater.inRange created_inRange)

theorem flowEnqueue_onward (w : World) (k : Kernel) (p : TaskRef) (enqFlags : UInt64) :
    Onward (w.taskCtx p) (flowEnqueue w k p enqFlags).ctx := by
  unfold flowEnqueue
  simp only
  split
  · exact .refl _
  split
  · rw [flowEnqueueGateMiss_ctx]
    rcases w.taskCtx p with _ | t
    · exact .absent
    · exact .later (waits_later t k.now)
  split
  · rename_i hget
    rw [taskCtx_of_flowGet_none hget, flowEnqueueNoState_ctx]
    exact .absent
  · rename_i t hget
    refine .of_flowGet hget ?_
    split
    · exact flowEnqueuePinned_later _ enqFlags
    · split
      · exact (waits_later _ k.now).laterIn
      · exact flowEnqueueLive_later _ _ enqFlags

end Paths

section Segment

/-- The commit of a stop writes a slice in range and the saved cost. -/
theorem flowStopCommit_later (s : FlowStopTail)
    (h : SliceIn s.tctx.sliceNs → SliceIn s.slice) : Later s.tctx (flowStopCommit s) :=
  ⟨fun hs => ⟨h hs.slice, hs.burst, hs.weight, hs.hintW, hs.vlag, flowStopCommit_adaptDelta_le s⟩,
    le_refl _⟩

theorem flowStopAdapt_later (t : FlowTaskCtx) (now delta : UInt64) (miss isLat : Bool)
    (costAvg : UInt64) : Later t (flowStopAdapt t now delta miss isLat costAvg) := by
  unfold flowStopAdapt
  simp only
  refine flowStopCommit_later ⟨t, _, _, _, _, _, _⟩ fun _ => ?_
  split
  · exact flowSliceLatClamp_in (flowAdaptProp_in _ _ _) true
  · exact flowAdaptProp_in _ _ _

theorem flowStopRunnable_later (t : FlowTaskCtx) (start now delta : UInt64)
    (havePred isLat : Bool) (nAvg : UInt64) :
    Later t (flowStopRunnable t start now delta havePred isLat nAvg) := by
  unfold flowStopRunnable
  simp only
  split
  · exact flowStopCommit_later ⟨t, _, _, _, _, _, _⟩ (flowSliceResume_in start now isLat)
  · split
    · exact flowStopCommit_later ⟨t, _, _, _, _, _, _⟩ fun _ =>
        flowSliceLatClamp_in (flowCarryFor_in delta) isLat
    · exact flowStopAdapt_later t now delta _ isLat _

/-- A charge keeps the burst in range and never moves the vruntime back. -/
theorem flowStopCharged_later (t : FlowTaskCtx) (delta : UInt64) :
    Later t (flowStopCharged t delta) := by
  unfold flowStopCharged
  split
  · exact ⟨fun h => ⟨h.slice, Or.inr ⟨(burst_store (flowPredAvg_in _ _)).1,
      (burst_store (flowPredDev_in _ _ _)).1⟩, h.weight, h.hintW, h.vlag, h.adaptDelta⟩,
      le_flowSatAdd _ _⟩
  · exact .refl t

theorem flowStopSegment_later (t : FlowTaskCtx) (ts : TaskStruct) (start now : UInt64)
    (runnable : Bool) : LaterIn t (flowStopSegment t ts start now runnable).ctx := by
  refine .of_later (flowStopCharged_later t (flowStopDelta now start)) ?_
  unfold flowStopSegment
  simp only
  split
  · exact (flowStopRunnable_later _ _ _ _ _ _ _).laterIn
  · split
    · exact ((flowStopAdapt_later _ _ _ _ _ _).trans (flowCountMiss_later _)).laterIn
    · exact (flowStopAdapt_later _ _ _ _ _ _).laterIn

end Segment

section Charged

/-- The fields a stop that charges `delta` leaves.  The cap holds where the end of the slice is no
saturated sum, which `flowSliceResume` takes for a bad start. -/
structure StopStored (t t' : FlowTaskCtx) (delta : UInt64) : Prop where
  avg : delta ≠ 0 → t'.avgNs.toUInt64 = flowPredAvg t.avgNs.toUInt64 delta
  dev : delta ≠ 0 → t'.devNs.toUInt64
    = flowPredDev t.devNs.toUInt64 (flowPredAvg t.avgNs.toUInt64 delta) delta
  lat : flowStopIsLat t delta = true → t.runAt.toNat + t.sliceNs.toNat < 2 ^ 64 - 1 →
    t'.sliceNs.toNat ≤ 100000

theorem flowCountMiss_burst (t : FlowTaskCtx) :
    (flowCountMiss t).avgNs = t.avgNs ∧ (flowCountMiss t).devNs = t.devNs := by
  rw [flowCountMiss_eq]
  exact ⟨rfl, rfl⟩

theorem flowCountMiss_sliceNs (t : FlowTaskCtx) : (flowCountMiss t).sliceNs = t.sliceNs := by
  rw [flowCountMiss_eq]

theorem flowStopCharged_sliceNs (t : FlowTaskCtx) (delta : UInt64) :
    (flowStopCharged t delta).sliceNs = t.sliceNs := by
  unfold flowStopCharged
  split
  · rfl
  · rfl

theorem flowStopAdapt_burst (t : FlowTaskCtx) (now delta : UInt64) (miss isLat : Bool)
    (costAvg : UInt64) : (flowStopAdapt t now delta miss isLat costAvg).avgNs = t.avgNs
      ∧ (flowStopAdapt t now delta miss isLat costAvg).devNs = t.devNs := ⟨rfl, rfl⟩

theorem flowStopRunnable_burst (t : FlowTaskCtx) (start now delta : UInt64)
    (havePred isLat : Bool) (nAvg : UInt64) :
    (flowStopRunnable t start now delta havePred isLat nAvg).avgNs = t.avgNs
      ∧ (flowStopRunnable t start now delta havePred isLat nAvg).devNs = t.devNs := by
  unfold flowStopRunnable
  simp only
  split
  · exact ⟨rfl, rfl⟩
  · split
    · exact ⟨rfl, rfl⟩
    · exact flowStopAdapt_burst t now delta _ isLat _

theorem flowStopAdapt_le_lat (t : FlowTaskCtx) (now delta : UInt64) (miss : Bool)
    (costAvg : UInt64) : (flowStopAdapt t now delta miss true costAvg).sliceNs.toNat ≤ 100000 :=
  flowSliceLatClamp_le_lat _

theorem flowStopRunnable_le_lat {t : FlowTaskCtx} {start : UInt64} (now delta : UInt64)
    (havePred : Bool) (nAvg : UInt64) (h0 : start ≠ 0) (h : SliceIn t.sliceNs)
    (hend : start.toNat + t.sliceNs.toNat < 2 ^ 64 - 1) :
    (flowStopRunnable t start now delta havePred true nAvg).sliceNs.toNat ≤ 100000 := by
  unfold flowStopRunnable
  simp only
  split
  · exact flowSliceResume_le_lat now h0 h hend
  · split
    · exact flowSliceLatClamp_le_lat _
    · exact flowStopAdapt_le_lat t now delta _ _

theorem flowStopSegment_burst (t : FlowTaskCtx) (ts : TaskStruct) (start now : UInt64)
    (runnable : Bool) : ∃ t', (flowStopSegment t ts start now runnable).ctx = some t'
      ∧ t'.avgNs = (flowStopCharged t (flowStopDelta now start)).avgNs
      ∧ t'.devNs = (flowStopCharged t (flowStopDelta now start)).devNs := by
  unfold flowStopSegment
  simp only
  split
  · exact ⟨_, rfl, flowStopRunnable_burst _ _ _ _ _ _ _⟩
  · refine ⟨_, rfl, ?_⟩
    split
    · rw [(flowCountMiss_burst _).1, (flowCountMiss_burst _).2]
      exact flowStopAdapt_burst _ now _ _ _ _
    · exact flowStopAdapt_burst _ now _ _ _ _

theorem flowStopSegment_le_lat {t t' : FlowTaskCtx} (ts : TaskStruct) {start now : UInt64}
    {runnable : Bool} (hctx : (flowStopSegment t ts start now runnable).ctx = some t')
    (hlat : flowStopIsLat t (flowStopDelta now start) = true) (h0 : start ≠ 0)
    (h : SliceIn t.sliceNs) (hend : start.toNat + t.sliceNs.toNat < 2 ^ 64 - 1) :
    t'.sliceNs.toNat ≤ 100000 := by
  have hcharged := flowStopCharged_sliceNs t (flowStopDelta now start)
  unfold flowStopSegment at hctx
  simp only [hlat] at hctx
  split at hctx
  · rw [← Option.some.inj hctx]
    exact flowStopRunnable_le_lat now _ _ _ h0 (hcharged ▸ h) (hcharged ▸ hend)
  · split at hctx
    · rw [← Option.some.inj hctx, flowCountMiss_sliceNs]
      exact flowStopAdapt_le_lat _ now _ _ _
    · rw [← Option.some.inj hctx]
      exact flowStopAdapt_le_lat _ now _ _ _

/-- A stop that takes a start stores its burst without loss, and a latency critical slice within
the cap. -/
theorem flowStopping_stored (h : stopTakes w k p = some t) (hs : SliceIn t.sliceNs)
    (runnable : Bool) : ∃ t', (flowStopping w k p runnable).ctx = some t'
      ∧ StopStored t t' (flowStopDelta k.now t.runAt) := by
  obtain ⟨t', hctx, havg, hdev⟩ :=
    flowStopSegment_burst { t with runAt := 0 } (k.task p) t.runAt k.now runnable
  have hslice := flowStopSegment_le_lat (k.task p) hctx
  obtain ⟨hgate, ht, hr⟩ := stopTakes_some h
  refine ⟨t', ?_, ⟨fun hd => ?_, fun hd => ?_, fun hlat hend => hslice hlat hr hs hend⟩⟩
  · unfold flowStopping
    simp [hgate, ht, hr, hctx]
  · rw [havg, flowStopCharged, if_pos hd]
    exact (burst_store (flowPredAvg_in _ _)).2
  · rw [hdev, flowStopCharged, if_pos hd]
    exact (burst_store (flowPredDev_in _ _ _)).2

theorem flowStopping_onward (w : World) (k : Kernel) (p : TaskRef) (runnable : Bool) :
    Onward (w.taskCtx p) (flowStopping w k p runnable).ctx := by
  unfold flowStopping
  simp only
  split
  · exact .refl _
  · rcases w.taskCtx p with _ | t
    · exact .absent
    · have htake : Later t { t with runAt := 0 } := .of_ledger rfl (fun h => h) (le_refl _)
      simp only
      split
      · exact .later htake
      · obtain ⟨t', hctx, hlater⟩ :=
          flowStopSegment_later { t with runAt := 0 } (k.task p) t.runAt k.now runnable
        rw [hctx]
        exact .later (htake.trans hlater)

theorem flowRunning_onward (w : World) (k : Kernel) (p : TaskRef) :
    Onward (w.taskCtx p) (flowRunning w k p).ctx := by
  unfold flowRunning
  simp only
  split
  · exact .refl _
  · rcases w.taskCtx p with _ | t
    · exact .absent
    · simp only
      split
      · exact .later (.of_ledger rfl (fun h => h) (le_refl _))
      · exact .refl _

theorem flowEnable_inRange (h : ∀ t, w.taskCtx p = some t → InRange t) :
    ∀ t, (flowEnable w k p).ctx = some t → InRange t := by
  rcases flowEnable_ctx w k p with he | he
  · rwa [he]
  · intro t ht
    obtain rfl := Option.some.inj (he.symm.trans ht)
    exact fresh_inRange

theorem flowSetWeight_onward (w : World) (p : TaskRef) (weight : UInt32) :
    Onward (w.taskCtx p) ((flowSetWeight w p weight).taskCtx p) := by
  rw [flowSetWeight_taskCtx, Function.update_self]
  rcases w.taskCtx p with _ | t
  · exact .absent
  · exact .later ⟨fun h => ⟨h.slice, h.burst, flowWeightClamp_in weight, h.hintW, h.vlag,
      h.adaptDelta⟩, le_refl _⟩

end Charged

section Runs

/-- The storage of a task after a step: what one of five ops made of it, or what it was. -/
theorem step_storage {P : Option FlowTaskCtx → Prop} (c : Call) (h : P (w.taskCtx p))
    (henqueue : ∀ enqFlags, c.op = .enqueue p enqFlags →
      P (flowEnqueue w c.view p enqFlags).ctx)
    (hrunning : c.op = .running p → P (flowRunning w c.view p).ctx)
    (hstopping : ∀ runnable, c.op = .stopping p runnable →
      P (flowStopping w c.view p runnable).ctx)
    (henable : c.op = .enable p → P (flowEnable w c.view p).ctx)
    (hweight : ∀ weight, c.op = .setWeight p weight →
      P ((flowSetWeight w p weight).taskCtx p)) : P ((w.step c).taskCtx p) := by
  have hsame {w' : World} (ht : w'.taskCtx = w.taskCtx) : P (w'.taskCtx p) := by rwa [ht]
  obtain ⟨k, op⟩ := c
  have hcommit {q : TaskRef} {o : OpOut} (ho : p = q → P o.ctx) :
      P ((w.commit k q o).taskCtx p) := by
    rw [commit_taskCtx]
    by_cases hp : p = q
    · subst hp
      rw [Function.update_self]
      exact ho rfl
    · rwa [Function.update_of_ne hp]
  have hcgroup (hop : op.isCgroup = true) : P ((w.step ⟨k, op⟩).taskCtx p) := by
    obtain ⟨stor, cache, heq⟩ := step_cgroup w k hop
    exact hsame (by rw [heq])
  cases op with
  | enqueue q enqFlags => exact hcommit fun hp => hp ▸ henqueue enqFlags (hp ▸ rfl)
  | running q => exact hcommit fun hp => hp ▸ hrunning (hp ▸ rfl)
  | stopping q runnable => exact hcommit fun hp => hp ▸ hstopping runnable (hp ▸ rfl)
  | enable q => exact hcommit fun hp => hp ▸ henable (hp ▸ rfl)
  | disable q =>
    refine hcommit fun hp => ?_
    rwa [flowDisable_ctx, ← hp]
  | exitTask q => exact hcommit fun hp => hp ▸ h
  | cpuRelease cpu => exact hsame (flowCpuRelease_frame w k cpu).1
  | dispatch cpu => exact hsame (flowDispatch_frame w k cpu).1
  | setWeight q weight =>
    by_cases hp : p = q
    · subst hp
      exact hweight weight rfl
    · show P ((flowSetWeight w q weight).taskCtx p)
      rw [flowSetWeight_taskCtx, Function.update_of_ne hp]
      exact h
  | cgroupInit cgrp => exact hcgroup rfl
  | cgroupExit cgrp => exact hcgroup rfl
  | cgroupMove q dst => exact hcgroup rfl
  | cgroupSetWeight cgrp weight => exact hcgroup rfl

/-- Every op but an enable takes the storage of a task onward. -/
theorem step_onward (w : World) (c : Call) (p : TaskRef) (h : c.op ≠ .enable p) :
    Onward (w.taskCtx p) ((w.step c).taskCtx p) :=
  step_storage c (.refl _) (fun enqFlags _ => flowEnqueue_onward w c.view p enqFlags)
    (fun _ => flowRunning_onward w c.view p)
    (fun runnable _ => flowStopping_onward w c.view p runnable) (fun he => absurd he h)
    fun weight _ => flowSetWeight_onward w p weight

/-- Every stored state of a task is in range. -/
def AllInRange (w : World) : Prop := ∀ p t, w.taskCtx p = some t → InRange t

theorem Onward.inRange {c c' : Option FlowTaskCtx} (h : Onward c c')
    (hc : ∀ t, c = some t → InRange t) : ∀ t, c' = some t → InRange t := by
  rintro t' rfl
  cases h with
  | created h => exact h
  | later h => exact h.inRange (hc _ rfl)

theorem step_inRange (h : AllInRange w) (c : Call) : AllInRange (w.step c) := by
  intro p
  by_cases he : c.op = .enable p
  · obtain ⟨k, op⟩ := c
    obtain rfl : op = .enable p := he
    show ∀ t, (w.commit k p (flowEnable w k p)).taskCtx p = some t → InRange t
    rw [commit_taskCtx, Function.update_self]
    exact flowEnable_inRange (h p)
  · exact (step_onward w c p he).inRange (h p)

theorem run_inRange (cs : List Call) (h : AllInRange w) : AllInRange (system.exec w cs) :=
  system.exec_keeps cs (fun _ c _ h => step_inRange h c) h

/-- Between enables the state of a task only gets later. -/
theorem run_later (cs : List Call) (ht : w.taskCtx p = some t)
    (hcs : ∀ c ∈ cs, c.op ≠ .enable p) : LaterIn t ((system.exec w cs).taskCtx p) :=
  system.exec_keeps (I := fun w => LaterIn t (w.taskCtx p)) cs
    (fun w c hc h => h.onward (step_onward w c p (hcs c hc))) ⟨t, ht, .refl t⟩

/-- What a reached state holds of its tasks, and what the steps from it keep. -/
structure TaskRanges (w : World) : Prop where
  inRange : AllInRange w
  share : ∀ p t, w.taskCtx p = some t → ShareIn (flowTaskEffectiveWeight t.weight t.hintW)
  forward : ∀ p t cs, w.taskCtx p = some t → (∀ c ∈ cs, c.op ≠ .enable p) →
    ∃ t', (system.exec w cs).taskCtx p = some t' ∧ t.vruntime ≤ t'.vruntime
  stored : ∀ k p t runnable, stopTakes w k p = some t →
    ∃ t', (w.step ⟨k, .stopping p runnable⟩).taskCtx p = some t'
      ∧ StopStored t t' (flowStopDelta k.now t.runAt)

theorem run_taskRanges (w₀ : World) (h₀ : ∀ p, w₀.taskCtx p = none) (cs : List Call) :
    TaskRanges (system.exec w₀ cs) := by
  have hall : AllInRange (system.exec w₀ cs) := run_inRange cs fun p t ht => by
    rw [h₀ p] at ht
    cases ht
  refine ⟨hall, fun p t _ => flowTaskEffectiveWeight_in _ _, ?_, ?_⟩
  · intro p t cs' ht hcs'
    obtain ⟨t', ht', hlater⟩ := run_later cs' ht hcs'
    exact ⟨t', ht', UInt64.le_iff_toNat_le.mpr hlater.vruntime⟩
  · intro k p t runnable htakes
    obtain ⟨t', hctx, hstored⟩ := flowStopping_stored htakes
      (hall p t (stopTakes_some htakes).2.1).slice runnable
    refine ⟨t', ?_, hstored⟩
    show ((system.exec w₀ cs).commit k p (flowStopping _ k p runnable)).taskCtx p = some t'
    rw [commit_taskCtx, Function.update_self, hctx]

/-- An enabled task that starts a segment at `start`. -/
def startCalls (start : UInt64) : List Call :=
  [⟨Kernel.plain 5, .enable 0⟩, ⟨Kernel.plain start, .running 0⟩]

/-- The start of a segment and a stop one microsecond later. -/
def stopCalls (start : UInt64) : List Call :=
  startCalls start ++ [⟨Kernel.plain (start + 1000), .stopping 0 true⟩]

theorem run_taskRanges_stop : ∃ t,
    (system.exec (World.boot 1 1 fun _ => 0) (stopCalls 1000)).taskCtx 0 = some t
      ∧ t.avgNs = 1000 ∧ t.sliceNs = 100000 ∧ InRange t := by
  have hranges := run_taskRanges (World.boot 1 1 fun _ => 0) (fun _ => rfl) (stopCalls 1000)
  exact ⟨_, rfl, by decide, by decide, hranges.inRange 0 _ rfl⟩

/-- A segment that starts a quantum before the last clock value ends on the saturated sum, so a
latency critical stop keeps the whole quantum. -/
theorem flowStopping_keeps_quantum : ∃ t t',
    (system.exec (World.boot 1 1 fun _ => 0) (startCalls (u64Max - 1000000))).taskCtx 0 = some t
      ∧ flowStopIsLat t (flowStopDelta (u64Max - 1000000 + 1000) t.runAt) = true
      ∧ t.runAt.toNat + t.sliceNs.toNat < 2 ^ 64
      ∧ (system.exec (World.boot 1 1 fun _ => 0) (stopCalls (u64Max - 1000000))).taskCtx 0
        = some t'
      ∧ t'.sliceNs = 1000000 :=
  ⟨_, _, rfl, by decide, by decide, rfl, by decide⟩

end Runs

end ScxFlow
