import ScxFlow.Proofs.StrictKey
import ScxFlow.Proofs.TaskRanges

/-!
# The leftover of a preempted head

A runnable stop with enough of its slice left stores exactly what is left, and an enqueue keeps
what is stored unless it is a fresh wait.  So over a run of such stops, with no fresh wait of the
task in between, the service received and the slice still held add up to the slice at the start.
-/

namespace ScxFlow

variable {w : World} {k : Kernel} {p : TaskRef} {t : FlowTaskCtx} {enqFlags : UInt64}

section Resumes

/-- A stop of `t` at `now` takes the resume branch and is not latency critical. -/
structure Resumes (t : FlowTaskCtx) (now : UInt64) : Prop where
  onTime : flowDeadlineOk t.deadline now = true
  served : 0 < (flowStopDelta now t.runAt).toNat
  left : (flowStopDelta now t.runAt).toNat + 100000 < t.sliceNs.toNat
  batch : flowStopIsLat t (flowStopDelta now t.runAt) = false

/-- A segment that is charged lies between its start and the clock, when both are below the wrap. -/
theorem flowStopDelta_toNat {now start : UInt64} (hnow : now.toNat < 2 ^ 62)
    (hstart : start.toNat < 2 ^ 62) (hd : 0 < (flowStopDelta now start).toNat) :
    start ≠ 0 ∧ start.toNat + (flowStopDelta now start).toNat = now.toNat := by
  have h0 : start ≠ 0 := by
    rintro rfl
    exact absurd hd (by simp [flowStopDelta, flowDeltaClamp, flowGapIsResume])
  unfold flowStopDelta flowDeltaClamp at hd ⊢
  simp only [h0, ↓reduceIte] at hd ⊢
  by_cases hb : flowTimeBefore now start = true
  · simp [hb, flowGapIsResume] at hd
  · have hle : start.toNat ≤ now.toNat := by
      by_contra hgt
      exact hb (flowTimeBefore_iff.mpr (Or.inl ⟨by omega, by omega⟩))
    rw [if_neg hb] at hd ⊢
    split at hd
    · simp at hd
    · rename_i hgap
      rw [if_neg hgap, toNat_sub_of_le hle]
      exact ⟨h0, by omega⟩

/-- The resumed slice is what the segment leaves of the stored one. -/
theorem flowSliceResume_toNat {start now : UInt64} {cur : UInt32} (h0 : start ≠ 0)
    (hnow : now.toNat < 2 ^ 62) (hle : start.toNat ≤ now.toNat) (hcur : SliceIn cur)
    (hleft : now.toNat - start.toNat + 100000 < cur.toNat) :
    (flowSliceResume start now false cur).toNat + (now.toNat - start.toNat) = cur.toNat := by
  have hquantum : cur.toNat ≤ 1000000 := hcur.2
  have hclamps := flowSliceResume_clamps now false h0 hcur (by omega)
  have hend : (flowSatAdd start cur.toUInt64).toNat = start.toNat + cur.toNat := by
    rw [flowSatAdd_toNat, UInt32.toNat_toUInt64]
    omega
  rw [hclamps]
  generalize flowSatAdd start cur.toUInt64 = occEnd at hend
  have hb : flowTimeBefore now occEnd = true :=
    flowTimeBefore_iff.mpr (Or.inl ⟨by omega, by omega⟩)
  have hrem : (flowResumeRem occEnd now).toNat = start.toNat + cur.toNat - now.toNat := by
    unfold flowResumeRem
    simp only [hb, Bool.not_true, Bool.false_and, Bool.false_eq_true, ↓reduceIte]
    rw [toNat_sub_of_le (by omega), hend]
  rw [hrem]
  show max 10000 (min _ 1000000) + _ = _
  omega

/-- The resume branch stores the resumed slice. -/
theorem flowStopRunnable_resumes {c : FlowTaskCtx} {start now delta : UInt64} (nAvg : UInt64)
    (hon : flowDeadlineOk c.deadline now = true) (hpos : 0 < delta.toNat)
    (hleft : delta.toNat + 100000 < c.sliceNs.toNat) :
    (flowStopRunnable c start now delta true false nAvg).sliceNs
      = flowSliceResume start now false c.sliceNs := by
  have hslice := c.sliceNs.toNat_lt
  have htail : flowSatAdd delta flowPreemptTailNs < c.sliceNs.toUInt64 := by
    rw [UInt64.lt_iff_toNat_lt, flowSatAdd_toNat, UInt32.toNat_toUInt64]
    show min (delta.toNat + 100000) _ < _
    omega
  have hdelta : delta > 0 := UInt64.lt_iff_toNat_lt.mpr hpos
  unfold flowStopRunnable
  simp only
  rw [hon, decide_eq_true hdelta, decide_eq_true htail]
  rfl

theorem flowStopping_resumes (ht : stopTakes w k p = some t) (h : Resumes t k.now)
    (hs : SliceIn t.sliceNs) (hnow : k.now.toNat < 2 ^ 62) (hstart : t.runAt.toNat < 2 ^ 62) :
    ∃ t', (flowStopping w k p true).ctx = some t'
      ∧ t'.sliceNs.toNat + (flowStopDelta k.now t.runAt).toNat = t.sliceNs.toNat := by
  obtain ⟨h0, hsum⟩ := flowStopDelta_toNat hnow hstart h.served
  have hne : flowStopDelta k.now t.runAt ≠ 0 := fun hz => by
    have hpos := h.served
    rw [hz] at hpos
    exact absurd hpos (lt_irrefl 0)
  obtain ⟨hgate, htask, -⟩ := stopTakes_some ht
  have hlat : flowStopIsLat { t with runAt := 0 } (flowStopDelta k.now t.runAt) = false := h.batch
  have hcharged : (flowStopCharged { t with runAt := 0 } (flowStopDelta k.now t.runAt)).deadline
        = t.deadline
      ∧ (flowStopCharged { t with runAt := 0 } (flowStopDelta k.now t.runAt)).sliceNs
        = t.sliceNs := by
    unfold flowStopCharged
    rw [if_pos hne]
    exact ⟨rfl, rfl⟩
  unfold flowStopping
  simp only [hgate, htask, Bool.not_true, Bool.false_eq_true, ↓reduceIte, h0]
  unfold flowStopSegment
  simp only [↓reduceIte]
  rw [hlat]
  generalize flowStopCharged { t with runAt := 0 } (flowStopDelta k.now t.runAt) = c at hcharged
  refine ⟨_, rfl, ?_⟩
  have hpred : decide (flowStopDelta k.now t.runAt ≠ 0) = true := by simp [hne]
  have hleft := h.left
  rw [hpred, flowStopRunnable_resumes _ (by rw [hcharged.1]; exact h.onTime) h.served
    (by rw [hcharged.2]; exact h.left), hcharged.2]
  have hresume := flowSliceResume_toNat h0 hnow (by omega) hs (by omega)
  omega

end Resumes

section Keeps

/-- A fresh wait: it tests the deadline, finds it kept, and carries no flag. -/
def freshWait (w : World) (k : Kernel) (p : TaskRef) (enqFlags : UInt64) : Bool :=
  (enqueueTests w k p enqFlags).any fun t =>
    !flowMissed t.deadline k.now && !isReenq enqFlags && !isPreempt enqFlags

/-- The slice a fresh wait writes. -/
def dynamicSlice (t t' : FlowTaskCtx) (now : UInt64) : UInt32 :=
  flowSliceLatClamp (flowSliceTierCap (flowSliceFor t'.deadline now) t'.avgNs.toUInt64
    t'.devNs.toUInt64 (waitIsLat t t' now)) (waitIsLat t t' now)

theorem flowSliceMissHold_of_in {cur : UInt32} (h : SliceIn cur) : flowSliceMissHold cur = cur := by
  have hmin : ¬ cur < flowSliceMinNs.toUInt32 := by
    rw [UInt32.lt_iff_toNat_lt, not_lt]
    exact h.1
  unfold flowSliceMissHold
  simp only
  rw [flowSliceInherit_of_in h, if_neg hmin]

theorem flowEnqueueDefaults_slice (h : t.sliceNs ≠ 0) :
    (flowEnqueueDefaults t).sliceNs = t.sliceNs := if_neg h

/-- A wait keeps the slice unless it is fresh. -/
theorem waitSlice_of_in {t' : FlowTaskCtx} {now : UInt64} (h : SliceIn t.sliceNs) :
    waitSlice t t' now enqFlags
      = if !flowMissed t.deadline now && !isReenq enqFlags && !isPreempt enqFlags
        then dynamicSlice t t' now else t.sliceNs := by
  unfold waitSlice
  simp only
  rw [flowEnqueueDefaults_slice (ne_zero_of_sliceIn h), flowSliceMissHold_of_in h,
    flowSliceInherit_of_in h]
  rcases flowMissed t.deadline now with _ | _
  · rcases isReenq enqFlags with _ | _
    · rcases isPreempt enqFlags with _ | _
      · rfl
      · rfl
    · rfl
  · rfl

/-- What an enqueue leaves of a stored task with a slice in range. -/
structure EnqueueKeeps (w : World) (k : Kernel) (p : TaskRef) (enqFlags : UInt64)
    (t t' : FlowTaskCtx) : Prop where
  slice : t'.sliceNs
    = if freshWait w k p enqFlags then dynamicSlice t t' k.now else t.sliceNs
  runAt : t'.runAt = t.runAt
  key : TierKey (flowEnqueue w k p enqFlags).eff
    (fairKey t' k.now (waitBoosts t t' k.now enqFlags))

theorem flowEnqueue_keeps (ht : w.taskCtx p = some t) (hs : SliceIn t.sliceNs)
    (enqFlags : UInt64) : ∃ t', (flowEnqueue w k p enqFlags).ctx = some t'
      ∧ EnqueueKeeps w k p enqFlags t t' := by
  have hget : flowGet w k p = some t := flowGet_of_stored ht
  rcases htests : enqueueTests w k p enqFlags with _ | t₀
  · have hkey := flowEnqueue_untiered hget htests
    have hfresh : freshWait w k p enqFlags = false := by
      unfold freshWait
      rw [htests]
      rfl
    have hkeeps {t' : FlowTaskCtx} (hslice : t'.sliceNs = t.sliceNs) (hrun : t'.runAt = t.runAt) :
        EnqueueKeeps w k p enqFlags t t' :=
      ⟨by rw [hfresh]; exact hslice, hrun, hkey _⟩
    rcases flowEnqueue_untested hget htests with ⟨es, -, heq⟩ | heq | heq
    · exact ⟨t, by rw [heq]; exact ht, hkeeps rfl rfl⟩
    · refine ⟨{ t with waitAt := k.now }, ?_, hkeeps rfl rfl⟩
      rw [heq, flowEnqueueGateMiss_ctx, ht]
      rfl
    · exact ⟨{ flowEnqueueDefaults t with waitAt := k.now }, by rw [heq]; rfl,
        hkeeps (flowEnqueueDefaults_slice (ne_zero_of_sliceIn hs)) rfl⟩
  · obtain rfl := eq_of_enqueueTests hget htests
    obtain ⟨t', hctx, hstores, hkey⟩ := flowEnqueue_waits htests
    refine ⟨t', hctx, ?_, hstores.runAt, hkey⟩
    rw [hstores.slice, waitSlice_of_in hs]
    unfold freshWait
    rw [htests]
    rfl

end Keeps

section Preemptions

/-- A call preempts `p` or leaves its slice: no enable, no fresh wait, and no stop but the resuming
ones and those that charge nothing. -/
def Preempts (p : TaskRef) (w : World) (c : Call) : Prop :=
  (c.op ≠ .enable p)
    ∧ (∀ enqFlags, c.op = .enqueue p enqFlags → freshWait w c.view p enqFlags = false)
    ∧ ∀ runnable, c.op = .stopping p runnable → ∀ t, stopTakes w c.view p = some t →
      runnable = true ∧ Resumes t c.view.now

/-- The service a call charges to `p`. -/
def serviceOf (p : TaskRef) (w : World) (c : Call) : ℕ :=
  match c.op with
  | .stopping q _ => if q = p then
      ((stopTakes w c.view p).map fun t => (flowStopDelta c.view.now t.runAt).toNat).getD 0
    else 0
  | _ => 0

/-- The service charged to `p` along a run. -/
def received (p : TaskRef) : World → List Call → ℕ
  | _, [] => 0
  | w, c :: cs => serviceOf p w c + received p (w.step c) cs

/-- A storage with no start past the wrap of the clock. -/
def StartIn (c : Option FlowTaskCtx) : Prop := ∀ t, c = some t → t.runAt.toNat < 2 ^ 62

theorem startIn_none : StartIn none := fun t ht => by cases ht

theorem startIn_some (h : t.runAt.toNat < 2 ^ 62) : StartIn (some t) := fun t' ht => by
  obtain rfl := Option.some.inj ht
  exact h

theorem flowEnqueue_startIn (h : StartIn (w.taskCtx p)) (enqFlags : UInt64) :
    StartIn (flowEnqueue w k p enqFlags).ctx := by
  rcases hget : flowGet w k p with _ | t
  · have hnone := taskCtx_of_flowGet_none hget
    unfold flowEnqueue
    simp only
    split
    · exact h
    split
    · rw [flowEnqueueGateMiss_ctx, hnone]
      exact startIn_none
    · simp only [hget]
      rw [flowEnqueueNoState_ctx]
      exact startIn_none
  · have hrun : t.runAt.toNat < 2 ^ 62 := by
      rcases flowGet_some hget with hs | ⟨-, rfl⟩
      · exact h t hs
      · show (0 : ℕ) < 2 ^ 62
        omega
    rcases htests : enqueueTests w k p enqFlags with _ | t₀
    · rcases flowEnqueue_untested hget htests with ⟨es, -, heq⟩ | heq | heq
      · rw [heq]
        exact h
      · rw [heq, flowEnqueueGateMiss_ctx]
        intro t' ht'
        obtain ⟨t₀, hc, rfl⟩ := Option.map_eq_some_iff.mp ht'
        exact h t₀ hc
      · rw [heq]
        exact startIn_some hrun
    · obtain rfl := eq_of_enqueueTests hget htests
      obtain ⟨t', hctx, hstores, -⟩ := flowEnqueue_waits htests
      rw [hctx]
      exact startIn_some (hstores.runAt ▸ hrun)

theorem flowRunning_startIn (h : StartIn (w.taskCtx p)) (hnow : k.now.toNat < 2 ^ 62) :
    StartIn (flowRunning w k p).ctx := by
  rcases hgate : flowEntryOk w (k.task p) (k.task p).taskCpu 0 with _ | _
  · rw [flowRunning_of_closed hgate]
    exact h
  · rcases flowRunning_of_open hgate with ⟨t, -, -, heq⟩ | ⟨-, heq⟩
    · rw [heq]
      refine startIn_some ?_
      show (flowRunStamp k.now).toNat < 2 ^ 62
      unfold flowRunStamp
      split
      · show (1 : ℕ) < 2 ^ 62
        omega
      · exact hnow
    · rw [heq]
      exact h

theorem flowStopping_startIn (h : StartIn (w.taskCtx p)) (runnable : Bool) :
    StartIn (flowStopping w k p runnable).ctx := by
  rcases flowStopping_cases w k p runnable with ⟨-, -, heq⟩ | ⟨-, -, -, heq⟩ |
    ⟨t, t', es, -, -, -, -, heq, hstop, -⟩
  · rw [heq]
    exact h
  · rw [heq]
    exact h
  · rw [heq]
    refine startIn_some ?_
    rw [hstop.runAt]
    show (0 : ℕ) < 2 ^ 62
    omega

theorem flowEnable_startIn (h : StartIn (w.taskCtx p)) : StartIn (flowEnable w k p).ctx := by
  rcases flowEnable_ctx w k p with he | he
  · rwa [he]
  · rw [he]
    exact startIn_some (by show (0 : ℕ) < 2 ^ 62; omega)

theorem flowSetWeight_startIn (h : StartIn (w.taskCtx p)) (weight : UInt32) :
    StartIn ((flowSetWeight w p weight).taskCtx p) := by
  rw [flowSetWeight_taskCtx, Function.update_self]
  intro t' ht'
  obtain ⟨t, ht, rfl⟩ := Option.map_eq_some_iff.mp ht'
  exact h t ht

theorem step_startIn (c : Call) (hnow : c.view.now.toNat < 2 ^ 62) (h : StartIn (w.taskCtx p)) :
    StartIn ((w.step c).taskCtx p) :=
  step_storage c h (fun enqFlags _ => flowEnqueue_startIn h enqFlags)
    (fun _ => flowRunning_startIn h hnow) (fun runnable _ => flowStopping_startIn h runnable)
    (fun _ => flowEnable_startIn h) fun weight _ => flowSetWeight_startIn h weight

theorem run_startIn (cs : List Call) (hclock : ∀ c ∈ cs, c.view.now.toNat < 2 ^ 62)
    (h : StartIn (w.taskCtx p)) : StartIn ((system.exec w cs).taskCtx p) :=
  system.exec_keeps (I := fun w => StartIn (w.taskCtx p)) cs
    (fun _ c hc h => step_startIn c (hclock c hc) h) h

/-- The storage holds a slice of the task. -/
def HoldsSlice (slice : UInt32) (c : Option FlowTaskCtx) : Prop :=
  ∃ t, c = some t ∧ t.sliceNs = slice

theorem flowRunning_holds {slice : UInt32} (h : HoldsSlice slice (w.taskCtx p)) :
    HoldsSlice slice (flowRunning w k p).ctx := by
  obtain ⟨t, ht, hs⟩ := h
  rcases hgate : flowEntryOk w (k.task p) (k.task p).taskCpu 0 with _ | _
  · rw [flowRunning_of_closed hgate]
    exact ⟨t, ht, hs⟩
  · rcases flowRunning_of_open hgate with ⟨t₀, ht₀, -, heq⟩ | ⟨-, heq⟩
    · obtain rfl : t₀ = t := Option.some.inj (ht₀.symm.trans ht)
      rw [heq]
      exact ⟨_, rfl, hs⟩
    · rw [heq]
      exact ⟨t, ht, hs⟩

theorem flowSetWeight_holds {slice : UInt32} (h : HoldsSlice slice (w.taskCtx p))
    (weight : UInt32) : HoldsSlice slice ((flowSetWeight w p weight).taskCtx p) := by
  obtain ⟨t, ht, hs⟩ := h
  rw [flowSetWeight_taskCtx, Function.update_self, ht]
  exact ⟨_, rfl, hs⟩

/-- A stop among preemptions moves what it charges from the slice to the service. -/
theorem flowStopping_moves (ht : w.taskCtx p = some t) (hs : SliceIn t.sliceNs)
    (hstart : t.runAt.toNat < 2 ^ 62) (hnow : k.now.toNat < 2 ^ 62) {runnable : Bool}
    (hc : Preempts p w ⟨k, .stopping p runnable⟩) :
    ∃ t', (flowStopping w k p runnable).ctx = some t'
      ∧ t'.sliceNs.toNat + serviceOf p w ⟨k, .stopping p runnable⟩ = t.sliceNs.toNat := by
  have hservice : serviceOf p w ⟨k, .stopping p runnable⟩ = ((stopTakes w k p).map fun t =>
      (flowStopDelta k.now t.runAt).toNat).getD 0 := if_pos rfl
  rw [hservice]
  rcases htakes : stopTakes w k p with _ | t₀
  · refine ⟨t, ?_, rfl⟩
    rcases flowStopping_cases w k p runnable with ⟨-, -, heq⟩ | ⟨-, -, -, heq⟩ |
      ⟨t₁, t', es, -, hsome, -⟩
    · rw [heq]
      exact ht
    · rw [heq]
      exact ht
    · rw [hsome] at htakes
      cases htakes
  · obtain rfl : t₀ = t := Option.some.inj ((stopTakes_some htakes).2.1.symm.trans ht)
    obtain ⟨rfl, hres⟩ := hc.2.2 runnable rfl t₀ htakes
    exact flowStopping_resumes htakes hres hs hnow hstart

theorem step_leftover (c : Call) (ht : w.taskCtx p = some t) (hs : SliceIn t.sliceNs)
    (hstart : t.runAt.toNat < 2 ^ 62) (hnow : c.view.now.toNat < 2 ^ 62) (hc : Preempts p w c) :
    ∃ t', (w.step c).taskCtx p = some t'
      ∧ t'.sliceNs.toNat + serviceOf p w c = t.sliceNs.toNat := by
  obtain ⟨k, op⟩ := c
  by_cases hstop : ∃ runnable, op = .stopping p runnable
  · obtain ⟨runnable, rfl⟩ := hstop
    show ∃ t', (w.commit k p (flowStopping w k p runnable)).taskCtx p = some t' ∧ _
    rw [commit_taskCtx, Function.update_self]
    exact flowStopping_moves ht hs hstart hnow hc
  · have hservice : serviceOf p w ⟨k, op⟩ = 0 := by
      cases op with
      | stopping q runnable => exact if_neg fun hq => hstop ⟨runnable, by rw [hq]⟩
      | _ => rfl
    have hholds : HoldsSlice t.sliceNs (w.taskCtx p) := ⟨t, ht, rfl⟩
    obtain ⟨t', ht', hslice⟩ : HoldsSlice t.sliceNs ((w.step ⟨k, op⟩).taskCtx p) := by
      refine step_storage ⟨k, op⟩ hholds (fun enqFlags he => ?_)
        (fun _ => flowRunning_holds hholds) (fun runnable he => absurd ⟨runnable, he⟩ hstop)
        (fun he => absurd he hc.1) fun weight _ => flowSetWeight_holds hholds weight
      obtain ⟨t', hctx, hkeeps⟩ := flowEnqueue_keeps (k := k) ht hs enqFlags
      refine ⟨t', hctx, hkeeps.slice.trans ?_⟩
      rw [hc.2.1 enqFlags he]
      rfl
    exact ⟨t', ht', by rw [hservice, hslice]; rfl⟩

theorem run_leftover : ∀ {w : World} {t : FlowTaskCtx} (cs : List Call), AllInRange w →
    StartIn (w.taskCtx p) → w.taskCtx p = some t → (∀ c ∈ cs, c.view.now.toNat < 2 ^ 62) →
    system.Along (Preempts p) w cs → ∃ t', (system.exec w cs).taskCtx p = some t'
      ∧ t'.sliceNs.toNat + received p w cs = t.sliceNs.toNat
  | _, t, [], _, _, ht, _, _ => ⟨t, ht, rfl⟩
  | w, t, c :: cs, hall, hstart, ht, hclock, hcs => by
    have hnow := hclock c List.mem_cons_self
    obtain ⟨t₁, ht₁, hsum⟩ := step_leftover c ht (hall p t ht).slice (hstart t ht) hnow hcs.1
    obtain ⟨t', ht', hsum'⟩ := run_leftover cs (step_inRange hall c)
      (step_startIn c hnow hstart) ht₁ (fun c' hc' => hclock c' (List.mem_cons_of_mem c hc'))
      hcs.2
    refine ⟨t', ht', ?_⟩
    show t'.sliceNs.toNat + (serviceOf p w c + received p (w.step c) cs) = _
    omega

end Preemptions

section Reachable

/-- What a reached state holds of the slice of `p`: a resuming stop stores what is left of it, an
enqueue but a fresh wait keeps it and keys by it, and so preemptions share it out. -/
structure ResumesWithLeftover (w : World) (p : TaskRef) (t : FlowTaskCtx) : Prop where
  stop : ∀ k : Kernel, k.now.toNat < 2 ^ 62 → stopTakes w k p = some t → Resumes t k.now →
    ∃ t', (flowStopping w k p true).ctx = some t'
      ∧ t'.sliceNs.toNat + (flowStopDelta k.now t.runAt).toNat = t.sliceNs.toNat
  enqueue : ∀ k enqFlags, ∃ t', (flowEnqueue w k p enqFlags).ctx = some t'
    ∧ EnqueueKeeps w k p enqFlags t t'
  preempted : ∀ cs : List Call, (∀ c ∈ cs, c.view.now.toNat < 2 ^ 62) →
    system.Along (Preempts p) w cs → ∃ t', (system.exec w cs).taskCtx p = some t'
      ∧ t'.sliceNs.toNat + received p w cs = t.sliceNs.toNat

/-- **The leftover.** In every state reached with the clock below 2^62, whatever task is stored
resumes with its leftover. -/
theorem run_resumesWithLeftover {w₀ : World} (h₀ : ∀ p, w₀.taskCtx p = none) {calls : List Call}
    (hclock : ∀ c ∈ calls, c.view.now.toNat < 2 ^ 62)
    (ht : (system.exec w₀ calls).taskCtx p = some t) :
    ResumesWithLeftover (system.exec w₀ calls) p t := by
  have hall : AllInRange (system.exec w₀ calls) := run_inRange calls fun p t ht => by
    rw [h₀ p] at ht
    cases ht
  have hstart : StartIn ((system.exec w₀ calls).taskCtx p) := run_startIn calls hclock (by
    rw [h₀ p]
    exact startIn_none)
  have hs := (hall p t ht).slice
  exact ⟨fun k hnow htakes hres => flowStopping_resumes htakes hres hs hnow (hstart t ht),
    fun k enqFlags => flowEnqueue_keeps ht hs enqFlags,
    fun cs hcs hp => run_leftover cs hall hstart ht hcs hp⟩

/-- Two enabled tasks, and a segment of the first. -/
def segmentCalls : List Call :=
  [⟨Kernel.plain 1000, .enable 0⟩, ⟨Kernel.plain 1000, .enable 1⟩,
    ⟨Kernel.plain 1000000, .running 0⟩]

/-- The second task takes the CPU after 850 us. -/
def preemptCalls : List Call :=
  [⟨Kernel.plain 1850000, .stopping 0 true⟩, ⟨Kernel.plain 1850000, .running 1⟩]

/-- Flagged as a preemption, the wait keeps the 150 us that are left. -/
theorem run_resumesWithLeftover_preempted : ∃ t', (system.exec
    (system.exec (World.boot 1 1 fun _ => 0) segmentCalls)
      (preemptCalls ++ [⟨Kernel.plain 1900000, .enqueue 0 scxEnqPreempt⟩])).taskCtx 0 = some t'
    ∧ t'.sliceNs.toNat + received 0 (system.exec (World.boot 1 1 fun _ => 0) segmentCalls)
      (preemptCalls ++ [⟨Kernel.plain 1900000, .enqueue 0 scxEnqPreempt⟩]) = 1000000 := by
  have hclock : ∀ c ∈ segmentCalls, c.view.now.toNat < 2 ^ 62 := by decide
  have hreached : ResumesWithLeftover
      (system.exec (World.boot 1 1 fun _ => 0) segmentCalls) 0 _ :=
    run_resumesWithLeftover (fun _ => rfl) hclock rfl
  refine hreached.preempted _ (by decide) ⟨⟨nofun, nofun, fun runnable hr t ht => ?_⟩,
    ⟨nofun, nofun, nofun⟩, ⟨nofun, fun enqFlags he => ?_, nofun⟩, trivial⟩
  · cases hr
    cases ht
    exact ⟨rfl, by decide, by decide, by decide, by decide⟩
  · cases he
    decide

/-- Unflagged, the wait of a resumed head is fresh and takes a whole quantum. -/
theorem flowEnqueue_rewrites_leftover : ∃ t t' t'',
    (system.exec (World.boot 1 1 fun _ => 0) segmentCalls).taskCtx 0 = some t
      ∧ stopTakes (system.exec (World.boot 1 1 fun _ => 0) segmentCalls)
        (Kernel.plain 1850000) 0 = some t
      ∧ Resumes t 1850000
      ∧ (system.exec (World.boot 1 1 fun _ => 0) (segmentCalls ++ preemptCalls)).taskCtx 0
        = some t'
      ∧ t'.sliceNs = 150000
      ∧ (flowEnqueue (system.exec (World.boot 1 1 fun _ => 0) (segmentCalls ++ preemptCalls))
        (Kernel.plain 1900000) 0 0).ctx = some t''
      ∧ t''.sliceNs = 1000000 :=
  ⟨_, _, _, rfl, rfl, ⟨by decide, by decide, by decide, by decide⟩, rfl, by decide, rfl,
    by decide⟩

end Reachable

end ScxFlow
