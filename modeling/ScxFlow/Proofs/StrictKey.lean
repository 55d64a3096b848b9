import ScxFlow.Proofs.TaskBounds
import ScxFlow.Proofs.Wait
import ScxFlow.System

/-!
# The strict key as arithmetic

The strict key is built from wrap-safe comparisons and clamped sums.  Below 2^62 it is the least of
the four bounds it is made of, in exact arithmetic; at the other end of the range the order of the
words turns over, and a virtual deadline half the range past the deadline sorts ahead of it.
-/

namespace ScxFlow

variable {w : World} {k : Kernel} {p : TaskRef} {enqFlags : UInt64}

/-- The share the virtual deadline of a task scales by. -/
def effectiveShare (t : FlowTaskCtx) (hintW : UInt32) : ℕ :=
  (flowTaskEffectiveWeight t.weight hintW).toNat

/-- The slice a task asks for, the quantum where it holds none. -/
def requestedSlice (t : FlowTaskCtx) : ℕ := (flowSliceInherit t.sliceNs).toNat

/-- The virtual deadline without a bound. -/
def exactVd (t : FlowTaskCtx) (hintW : UInt32) : ℕ :=
  t.vruntime.toNat + max 1 (128 * requestedSlice t / effectiveShare t hintW)

/-- The period a deadline is stored with: predicted with history, hinted without. -/
def exactPeriod (t : FlowTaskCtx) : ℕ :=
  if t.avgNs ≠ 0 then max 1 (min (t.avgNs.toNat + t.devNs.toNat + t.devNs.toNat / 2) 1000000000)
  else if t.hintUs ≠ 0 then t.hintUs.toNat * 1000
  else 80000000

/-- The least of the bounds of a strict key, with the slice the task holds. -/
def exactKey (t : FlowTaskCtx) (now : ℕ) (boost : Bool) : ℕ :=
  let scaled := max 1 (128 * t.sliceNs.toNat / effectiveShare t t.hintW)
  let fair := min (min t.deadline.toNat (t.vruntime.toNat + scaled)) (now + 80000000)
  if boost then min fair (now + max 4000000 (t.sliceNs.toNat + 100000)) else fair

section KeyParts

theorem flowScaledDelta_toNat {delta : UInt64} {weight : UInt32} (h0 : delta ≠ 0)
    (hd : delta.toNat < 2 ^ 57) (hw : ShareIn weight) :
    (flowScaledDelta delta weight).toNat = max 1 (128 * delta.toNat / weight.toNat) := by
  have hfit : ¬ delta > u64Max / flowWeightBase := by
    rw [gt_iff_lt, UInt64.lt_iff_toNat_lt, not_lt]
    exact Nat.le_of_lt_succ hd
  have hprod : (delta * flowWeightBase).toNat = 128 * delta.toNat := by
    rw [UInt64.toNat_mul]
    show delta.toNat * 128 % 2 ^ 64 = _
    omega
  have hout : (delta * flowWeightBase / weight.toUInt64).toNat
      = 128 * delta.toNat / weight.toNat := by
    rw [UInt64.toNat_div, hprod, UInt32.toNat_toUInt64]
  unfold flowScaledDelta
  simp only
  rw [flowWeightClamp_of_in hw, if_neg h0, if_neg hfit]
  split
  · rename_i hz
    rw [hz] at hout
    have hzero : 128 * delta.toNat / weight.toNat = 0 := hout.symm
    rw [hzero]
    rfl
  · rename_i hz
    have hpos := toNat_pos_iff.mpr hz
    rw [← hout]
    omega

theorem flowTaskEffectiveWeight_default (taskW hintW : UInt32) :
    flowTaskEffectiveWeight (if taskW = 0 then flowWeightBase.toUInt32 else taskW) hintW
      = flowTaskEffectiveWeight taskW hintW := by
  unfold flowTaskEffectiveWeight
  by_cases h : taskW = 0
  · rw [h]
    rfl
  · rw [if_neg h]

/-- The virtual deadline a key is made with. -/
def fairVd (t : FlowTaskCtx) (hintW : UInt32) : UInt64 :=
  flowVirtDeadline t.vruntime (flowSliceInherit t.sliceNs).toUInt64
    (flowTaskEffectiveWeight t.weight hintW)

theorem flowMakeFair_eq (t : FlowTaskCtx) (deadline : UInt64) (hintW : UInt32) :
    flowMakeFair t deadline hintW = flowEdfKey deadline (fairVd t hintW) := by
  unfold flowMakeFair fairVd flowSliceInherit
  simp only
  rw [flowTaskEffectiveWeight_default]

theorem flowSliceInherit_ne_zero (cur : UInt32) : flowSliceInherit cur ≠ 0 := by
  unfold flowSliceInherit
  split
  · decide
  · assumption

/-- The virtual deadline is the exact one up to the greatest word. -/
theorem fairVd_toNat (t : FlowTaskCtx) (hintW : UInt32) :
    (fairVd t hintW).toNat = min (exactVd t hintW) (2 ^ 64 - 1) := by
  have hlt := (flowSliceInherit t.sliceNs).toNat_lt
  have hpos : (flowSliceInherit t.sliceNs).toNat ≠ 0 := fun h =>
    flowSliceInherit_ne_zero t.sliceNs (UInt32.toNat_inj.mp h)
  have h0 : (flowSliceInherit t.sliceNs).toUInt64 ≠ 0 := toNat_pos_iff.mp (by
    rw [UInt32.toNat_toUInt64]
    omega)
  unfold fairVd flowVirtDeadline
  rw [flowSatAdd_toNat, flowScaledDelta_toNat h0 (by rw [UInt32.toNat_toUInt64]; omega)
    (flowTaskEffectiveWeight_in _ _), UInt32.toNat_toUInt64]
  rfl

theorem lt_exactVd (t : FlowTaskCtx) (hintW : UInt32) : t.vruntime.toNat < exactVd t hintW := by
  unfold exactVd
  omega

theorem fairVd_pos (t : FlowTaskCtx) (hintW : UInt32) : 0 < (fairVd t hintW).toNat := by
  have hlt := lt_exactVd t hintW
  rw [fairVd_toNat]
  omega

theorem exactVd_le (t : FlowTaskCtx) (hintW : UInt32) :
    exactVd t hintW ≤ t.vruntime.toNat + 2 ^ 39 := by
  have hlt := (flowSliceInherit t.sliceNs).toNat_lt
  have hdiv : 128 * requestedSlice t / effectiveShare t hintW ≤ 128 * requestedSlice t :=
    Nat.div_le_self _ _
  unfold requestedSlice at hdiv
  unfold exactVd requestedSlice
  omega

/-- The earlier of two times that are both set, over the whole range. -/
theorem flowEdfKey_value {deadline vd : UInt64} (hd : 0 < deadline.toNat) (hv : 0 < vd.toNat) :
    (flowEdfKey deadline vd).toNat
      = if vd.toNat < deadline.toNat ∧ deadline.toNat - vd.toNat ≤ 2 ^ 63
          ∨ deadline.toNat + 2 ^ 63 ≤ vd.toNat then vd.toNat else deadline.toNat := by
  unfold flowEdfKey
  rw [if_neg (toNat_pos_iff.mp hd), if_neg (toNat_pos_iff.mp hv)]
  simp only [flowTimeBefore_iff]
  split_ifs <;> rfl

theorem capBound_toNat (now : UInt64) :
    (flowSatAdd now flowPeriodNs).toNat = min (now.toNat + 80000000) (2 ^ 64 - 1) :=
  flowSatAdd_toNat _ _

theorem capBound_eq_max_iff (now : UInt64) :
    flowSatAdd now flowPeriodNs = u64Max ↔ 2 ^ 64 - 1 ≤ now.toNat + 80000000 := by
  rw [← UInt64.toNat_inj, capBound_toNat]
  show min (now.toNat + 80000000) (2 ^ 64 - 1) = 2 ^ 64 - 1 ↔ _
  omega

/-- The cap of a key that is set, over the whole range. -/
theorem flowEnqueueCapKey_value {vtime : UInt64} (now : UInt64) (h0 : 0 < vtime.toNat) :
    (flowEnqueueCapKey vtime now).toNat
      = if now.toNat + 80000000 < 2 ^ 64 - 1
          ∧ ¬ (vtime.toNat < now.toNat + 80000000 ∧ now.toNat + 80000000 - vtime.toNat ≤ 2 ^ 63
            ∨ now.toNat + 80000000 + 2 ^ 63 ≤ vtime.toNat)
        then now.toNat + 80000000 else vtime.toNat := by
  have hbound := capBound_toNat now
  have hmax := capBound_eq_max_iff now
  have hv0 := toNat_pos_iff.mp h0
  unfold flowEnqueueCapKey
  simp only
  generalize flowSatAdd now flowPeriodNs = bound at hbound hmax ⊢
  have hbefore := @flowTimeBefore_iff vtime bound
  have heq : vtime = bound ↔ vtime.toNat = bound.toNat := UInt64.toNat_inj.symm
  split
  · rename_i hc
    obtain ⟨-, hne, hge, -⟩ := hc
    have hge' : ¬ flowTimeBefore vtime bound = true := by simpa using hge
    rw [hbefore] at hge'
    rw [ne_eq, hmax] at hne
    split_ifs <;> omega
  · rename_i hc
    have hwin : bound = u64Max ∨ flowTimeBefore vtime bound = true ∨ vtime = bound := by
      by_contra hno
      push Not at hno
      exact hc ⟨hv0, hno.1, by simpa using hno.2.1, hno.2.2⟩
    rw [hmax, hbefore, heq] at hwin
    split_ifs <;> omega

theorem flowEdfKey_toNat {deadline vd : UInt64} (hd : 0 < deadline.toNat) (hv : 0 < vd.toNat)
    (hd' : deadline.toNat < 2 ^ 63) (hv' : vd.toNat < 2 ^ 63) :
    (flowEdfKey deadline vd).toNat = min deadline.toNat vd.toNat := by
  rw [flowEdfKey_value hd hv]
  split_ifs <;> omega

theorem flowEnqueueCapKey_toNat {vtime now : UInt64} (h0 : 0 < vtime.toNat)
    (hv : vtime.toNat < 2 ^ 63) (hnow : now.toNat < 2 ^ 62) :
    (flowEnqueueCapKey vtime now).toNat = min vtime.toNat (now.toNat + 80000000) := by
  rw [flowEnqueueCapKey_value now h0]
  split_ifs <;> omega

theorem flowLatDeadline_toNat {now : UInt64} (slice : UInt32) (hnow : now.toNat < 2 ^ 62) :
    (flowLatDeadline now slice).toNat = now.toNat + max 4000000 (slice.toNat + 100000) := by
  have hlt := slice.toNat_lt
  have hneed : (flowSatAdd slice.toUInt64 flowPreemptMarginNs).toNat = slice.toNat + 100000 := by
    rw [flowSatAdd_toNat, UInt32.toNat_toUInt64]
    show min (slice.toNat + 100000) _ = _
    omega
  unfold flowLatDeadline
  simp only
  generalize flowSatAdd slice.toUInt64 flowPreemptMarginNs = need at hneed
  have hbound : (if need > flowDLatNs then need else flowDLatNs).toNat
      = max 4000000 (slice.toNat + 100000) := by
    rw [← hneed]
    exact toNat_ite_lt flowDLatNs need
  rw [flowSatAdd_toNat, hbound]
  omega

/-- The predicted or hinted period, stored exactly. -/
theorem flowPredDeadline_exact (t : FlowTaskCtx) {now : UInt64} (hnow : now.toNat < 2 ^ 62) :
    (flowPredDeadline now t.avgNs.toUInt64 t.devNs.toUInt64 t.hintUs).toNat
      = now.toNat + exactPeriod t := by
  have hhint := t.hintUs.toNat_lt
  have hzero : t.avgNs.toUInt64 = 0 ↔ t.avgNs = 0 := by
    rw [← UInt64.toNat_inj, ← UInt32.toNat_inj, UInt32.toNat_toUInt64]
    rfl
  unfold flowPredDeadline flowDeadlineAt exactPeriod
  simp only
  by_cases ha : t.avgNs = 0
  · rw [if_pos (hzero.mpr ha), if_neg (not_not.mpr ha), flowSatAdd_toNat, flowTaskPeriod_toNat]
    by_cases hh : t.hintUs = 0
    · rw [if_pos hh, if_neg (not_not.mpr hh)]
      omega
    · rw [if_neg hh, if_pos hh]
      omega
  · have hperiod := flowPredPeriod_exact t fun h => ha (UInt32.toNat_inj.mp h)
    rw [if_neg (fun h => ha (hzero.mp h)), if_pos ha, flowSatAdd_toNat, hperiod]
    omega

end KeyParts

section WaitKey

theorem flowClampToMin_toNat (w : World) (t : FlowTaskCtx) (cpu : ℕ) :
    (flowClampToMin w t cpu).vruntime.toNat
      = max t.vruntime.toNat ((flowCpuMin w cpu).toNat - 2000000) := by
  unfold flowClampToMin
  simp only
  generalize flowCpuMin w cpu = m
  by_cases hgt : m > flowVlagMaxNs
  · have hgt' : 2000000 < m.toNat := UInt64.lt_iff_toNat_lt.mp hgt
    have hsub : (m - flowVlagMaxNs).toNat = m.toNat - 2000000 :=
      toNat_sub_of_le (by show 2000000 ≤ m.toNat; omega)
    simp only [hgt, ↓reduceIte, true_and]
    split
    · rename_i hlt
      rw [UInt64.lt_iff_toNat_lt] at hlt
      show (m - flowVlagMaxNs).toNat = _
      omega
    · rename_i hge
      rw [UInt64.lt_iff_toNat_lt] at hge
      omega
  · have hle : m.toNat ≤ 2000000 := not_lt.mp fun h => hgt (UInt64.lt_iff_toNat_lt.mpr h)
    rw [if_neg (fun h => hgt h.1)]
    omega

theorem fairKey_toNat {t : FlowTaskCtx} {now : UInt64} (boost : Bool) (hnow : now.toNat < 2 ^ 62)
    (hd : 0 < t.deadline.toNat) (hd' : t.deadline.toNat < 2 ^ 63) (hv : t.vruntime.toNat < 2 ^ 62)
    (hs : t.sliceNs ≠ 0) : (fairKey t now boost).toNat = exactKey t now.toNat boost := by
  have hlat := flowLatDeadline_toNat t.sliceNs hnow
  have hslice := t.sliceNs.toNat_lt
  have hvd := fairVd_toNat t t.hintW
  have hexact := exactVd_le t t.hintW
  have hpos := lt_exactVd t t.hintW
  have hvt := flowEdfKey_toNat hd (fairVd_pos t t.hintW) hd' (by omega)
  have hscaled : exactVd t t.hintW
      = t.vruntime.toNat + max 1 (128 * t.sliceNs.toNat / effectiveShare t t.hintW) := by
    unfold exactVd requestedSlice flowSliceInherit
    rw [if_neg hs]
  unfold fairKey exactKey
  simp only
  rw [flowMakeFair_eq]
  rw [← hscaled]
  generalize flowEdfKey t.deadline (fairVd t t.hintW) = vt at hvt
  rcases boost with _ | _
  · simp only [Bool.false_eq_true, ↓reduceIte]
    rw [flowEnqueueCapKey_toNat (by omega) (by omega) hnow]
    omega
  · simp only [↓reduceIte]
    have hkey : (flowEdfKey vt (flowLatDeadline now t.sliceNs)).toNat
        = min vt.toNat (flowLatDeadline now t.sliceNs).toNat :=
      flowEdfKey_toNat (by omega) (by omega) (by omega) (by omega)
    rw [flowEnqueueCapKey_toNat (by omega) (by omega) hnow]
    omega

theorem ne_zero_of_sliceIn {s : UInt32} (h : SliceIn s) : s ≠ 0 := by
  rintro rfl
  exact absurd h.1 (by decide)

theorem flowSliceMissHold_ne_zero (cur : UInt32) : flowSliceMissHold cur ≠ 0 := by
  unfold flowSliceMissHold
  simp only
  split
  · exact ne_zero_of_sliceIn sliceIn_min
  · exact flowSliceInherit_ne_zero cur

/-- Every wait leaves a slice. -/
theorem waitSlice_ne_zero (t t' : FlowTaskCtx) (now enqFlags : UInt64) :
    waitSlice t t' now enqFlags ≠ 0 := by
  unfold waitSlice
  simp only
  split
  · exact flowSliceMissHold_ne_zero _
  · split
    · exact flowSliceInherit_ne_zero _
    · split
      · exact flowSliceInherit_ne_zero t.sliceNs
      · exact ne_zero_of_sliceIn
          (flowSliceLatClamp_in (flowSliceTierCap_in (flowSliceFor_in _ _) _ _ _) _)

/-- What an enqueue that joins a tier leaves over the storage `t`, and the key it joins with. -/
structure JoinsBy (w : World) (k : Kernel) (p : TaskRef) (enqFlags : UInt64) (t t' : FlowTaskCtx)
    (key : UInt64) : Prop where
  stores : WaitStores w k p enqFlags t t'
  deadline : t'.deadline.toNat = k.now.toNat + exactPeriod t'
  vruntime : t'.vruntime.toNat
    = max t.vruntime.toNat ((flowCpuMin w (enqueueTarget w k p).toNat).toNat - 2000000)
  key : key.toNat = exactKey t' k.now.toNat (waitBoosts t t' k.now enqFlags)

/-- **Exact strict key.** Below 2^62 every insertion into a tier has for its key the least of the
stored deadline, the virtual deadline, the cap and, where the wait is fresh and latency critical,
the latency bound. -/
theorem flowEnqueue_strictKey {t : FlowTaskCtx} {dsq : ℕ} {key flags : UInt64}
    (hnow : k.now.toNat < 2 ^ 62) (hget : flowGet w k p = some t)
    (hv : t.vruntime.toNat < 2 ^ 62)
    (hmin : (flowCpuMin w (enqueueTarget w k p).toNat).toNat < 2 ^ 62)
    (hdsq : dsq ≠ flowOverflowDsq)
    (hins : Effect.insertVtime dsq key flags ∈ (flowEnqueue w k p enqFlags).eff) :
    ∃ t', (flowEnqueue w k p enqFlags).ctx = some t' ∧ JoinsBy w k p enqFlags t t' key := by
  have hlive := target_of_tier hins hdsq
  obtain ⟨t', hctx, hstores, htier⟩ := flowEnqueue_waits (enqueueTests_of_tier hget hins hdsq)
  have hdeadline : t'.deadline.toNat = k.now.toNat + exactPeriod t' := by
    rw [hstores.deadline]
    exact flowPredDeadline_exact t' hnow
  have hvruntime := flowClampToMin_toNat w t (enqueueTarget w k p).toNat
  rw [← hstores.vruntime hlive] at hvruntime
  refine ⟨t', hctx, hstores, hdeadline, hvruntime, ?_⟩
  have hperiod : 0 < exactPeriod t' ∧ exactPeriod t' ≤ 2 ^ 42 := by
    have hhint := t'.hintUs.toNat_lt
    unfold exactPeriod
    split
    · omega
    · split
      · rename_i hne
        have hpos : t'.hintUs.toNat ≠ 0 := fun h => hne (UInt32.toNat_inj.mp h)
        omega
      · omega
  rw [htier dsq key flags hins hdsq]
  refine fairKey_toNat _ hnow (by omega) (by omega) (by omega) ?_
  rw [hstores.slice]
  exact waitSlice_ne_zero _ _ _ _

/-- Task 1 runs on CPU 0, where the minimum is at 5 ms, and task 0 with its short bursts and no
service yet wakes there. -/
def World.shortWakes : World :=
  { World.boot 2 1 fun _ => 0 with
    cpuState := Function.update (fun _ => ⟨0, 0, 0⟩) 0 ⟨2, 0, 5000000⟩
    taskCtx := Function.update (fun _ => none) 0
      (some { FlowTaskCtx.fresh with avgNs := 10000, devNs := 10000 }) }

/-- The clamp brings the waker to 3 ms, and a slice of 25 us later is before its deadline. -/
theorem flowEnqueue_strictKey_short :
    ∃ t', (flowEnqueue World.shortWakes (Kernel.plain 4000000) 0 0).ctx = some t'
      ∧ JoinsBy World.shortWakes (Kernel.plain 4000000) 0 0
        { FlowTaskCtx.fresh with avgNs := 10000, devNs := 10000 } t' 3025000 := by
  have hins : Effect.insertVtime (flowNodeDsq 0) 3025000 0
      ∈ (flowEnqueue World.shortWakes (Kernel.plain 4000000) 0 0).eff := by decide
  exact flowEnqueue_strictKey (by decide) rfl (by decide) (by decide) (by decide) hins

end WaitKey

section Saturated

variable {t : FlowTaskCtx} {deadline now : UInt64} {hintW : UInt32}

/-- The key of a task whose virtual deadline is past: the deadline, the cap, or the virtual deadline
itself, which half the range further on sorts ahead of both. -/
theorem flowEnqueueCapKey_past (hnow : now.toNat < 2 ^ 62) (hd : deadline ≠ 0)
    (hcap : deadline.toNat ≤ now.toNat + 80000000) (hvd : deadline.toNat ≤ exactVd t hintW) :
    (flowEnqueueCapKey (flowMakeFair t deadline hintW) now).toNat
      = if (fairVd t hintW).toNat < deadline.toNat + 2 ^ 63 then deadline.toNat
        else if (fairVd t hintW).toNat < now.toNat + 80000000 + 2 ^ 63 then now.toNat + 80000000
        else (fairVd t hintW).toNat := by
  have hdl := toNat_pos_iff.mpr hd
  have hlt := deadline.toNat_lt
  have hsat := fairVd_toNat t hintW
  have hedf := flowEdfKey_value hdl (fairVd_pos t hintW)
  rw [flowMakeFair_eq]
  generalize flowEdfKey deadline (fairVd t hintW) = vt at hedf
  rw [flowEnqueueCapKey_value now (by split_ifs at hedf <;> omega)]
  split_ifs at hedf ⊢ <;> omega

/-- **Saturation.** Past the deadline, the key is the deadline, and so not ahead of it, exactly
while the virtual deadline is less than half the range past it. -/
theorem flowEnqueueCapKey_eq_deadline_iff (hnow : now.toNat < 2 ^ 62) (hd : deadline ≠ 0)
    (hcap : deadline.toNat ≤ now.toNat + 80000000) (hvd : deadline.toNat ≤ exactVd t hintW) :
    flowEnqueueCapKey (flowMakeFair t deadline hintW) now = deadline
        ∧ flowTimeBefore (flowEnqueueCapKey (flowMakeFair t deadline hintW) now) deadline = false
      ↔ exactVd t hintW < deadline.toNat + 2 ^ 63 := by
  have hkey := flowEnqueueCapKey_past hnow hd hcap hvd
  have hsat := fairVd_toNat t hintW
  generalize flowEnqueueCapKey (flowMakeFair t deadline hintW) now = key at hkey
  have hiff : key = deadline ↔ exactVd t hintW < deadline.toNat + 2 ^ 63 := by
    rw [← UInt64.toNat_inj, hkey]
    split_ifs <;> omega
  constructor
  · rintro ⟨heq, -⟩
    exact hiff.mp heq
  · intro h
    have heq := hiff.mpr h
    exact ⟨heq, by rw [heq, flowTimeBefore_self]⟩

/-- A task whose virtual time is the greatest word. -/
def saturatedTask : FlowTaskCtx := { FlowTaskCtx.fresh with vruntime := u64Max }

theorem flowEnqueueCapKey_eq_deadline_fresh :
    flowEnqueueCapKey (flowMakeFair { FlowTaskCtx.fresh with vruntime := 90000000 } 80001000 0) 1000
        = 80001000
      ∧ flowTimeBefore (flowEnqueueCapKey
        (flowMakeFair { FlowTaskCtx.fresh with vruntime := 90000000 } 80001000 0) 1000) 80001000
        = false :=
  (flowEnqueueCapKey_eq_deadline_iff (by decide) (by decide) (by decide) (by decide)).mpr
    (by decide)

/-- Its virtual deadline is past the deadline, and its key is the greatest word, which sorts ahead
of the deadline. -/
theorem flowEnqueueCapKey_saturated :
    (80001000 : UInt64).toNat ≤ exactVd saturatedTask 0
      ∧ (80001000 : UInt64).toNat ≤ (1000 : UInt64).toNat + 80000000
      ∧ flowEnqueueCapKey (flowMakeFair saturatedTask 80001000 0) 1000 = u64Max
      ∧ flowTimeBefore (flowEnqueueCapKey (flowMakeFair saturatedTask 80001000 0) 1000) 80001000
        = true := by
  decide

end Saturated

end ScxFlow
