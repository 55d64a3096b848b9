import ScxFlow.Proofs.Words

/-!
# The range of the predicted deadline

A deadline lies one period past the clock, and every period is at least its average up to a second
and never past 2^42 ns.
-/

namespace ScxFlow

theorem flowPredClamp_toNat (v : UInt64) :
    (flowPredClamp v).toNat = max 1 (min v.toNat 1000000000) := by
  have hrange : flowPredMinNs ≤ flowPredMaxNs := by decide
  unfold flowPredClamp
  exact toNat_clamp v hrange

theorem flowTaskPeriod_toNat (hintUs : UInt32) :
    (flowTaskPeriod hintUs).toNat = if hintUs = 0 then 80000000 else hintUs.toNat * 1000 := by
  have hlt := hintUs.toNat_lt
  unfold flowTaskPeriod
  split_ifs with h
  · rfl
  · simp only [gt_iff_lt, UInt64.lt_iff_toNat_lt, UInt32.toNat_toUInt64]
    rw [if_neg (by simp; omega)]
    simp only [UInt64.toNat_mul, UInt32.toNat_toUInt64]
    rw [Nat.mod_eq_of_lt (by simp; omega)]
    rfl

theorem flowTaskPeriod_le (hintUs : UInt32) : (flowTaskPeriod hintUs).toNat ≤ 2 ^ 42 := by
  have hlt := hintUs.toNat_lt
  rw [flowTaskPeriod_toNat]
  split_ifs <;> omega

theorem flowPredPeriod_bounds {avg : UInt64} (dev : UInt64) (h : avg ≠ 0) :
    min avg.toNat 1000000000 ≤ (flowPredPeriod avg dev).toNat
      ∧ (flowPredPeriod avg dev).toNat ≤ 1000000000 := by
  have hle : avg.toNat ≤ (flowSatAdd (flowSatAdd avg dev) (dev >>> 1)).toNat :=
    (le_flowSatAdd avg dev).trans (le_flowSatAdd _ _)
  unfold flowPredPeriod
  simp only
  rw [if_neg h]
  split_ifs
  · simp
  · rw [flowPredClamp_toNat]
    omega

/-- The period of a task with history, whose sums fit the word. -/
theorem flowPredPeriod_exact (t : FlowTaskCtx) (ha : t.avgNs.toNat ≠ 0) :
    (flowPredPeriod t.avgNs.toUInt64 t.devNs.toUInt64).toNat
      = max 1 (min (t.avgNs.toNat + t.devNs.toNat + t.devNs.toNat / 2) 1000000000) := by
  have havg := t.avgNs.toNat_lt
  have hdev := t.devNs.toNat_lt
  have hzero : t.avgNs.toUInt64 ≠ 0 := toNat_pos_iff.mp (by
    rw [UInt32.toNat_toUInt64]
    omega)
  have hhalf : (t.devNs.toUInt64 >>> 1).toNat = t.devNs.toNat / 2 := by
    rw [toNat_shiftRight _ (by decide), UInt32.toNat_toUInt64]
    rfl
  have hsum : (flowSatAdd (flowSatAdd t.avgNs.toUInt64 t.devNs.toUInt64)
      (t.devNs.toUInt64 >>> 1)).toNat
      = t.avgNs.toNat + t.devNs.toNat + t.devNs.toNat / 2 := by
    rw [flowSatAdd_toNat, flowSatAdd_toNat, hhalf, UInt32.toNat_toUInt64, UInt32.toNat_toUInt64]
    omega
  unfold flowPredPeriod
  simp only
  rw [if_neg hzero]
  generalize flowSatAdd (flowSatAdd t.avgNs.toUInt64 t.devNs.toUInt64)
    (t.devNs.toUInt64 >>> 1) = sum at hsum
  rw [if_neg, flowPredClamp_toNat, hsum]
  rintro rfl
  have hword : (2 : ℕ) ^ 64 - 1 = _ := hsum
  omega

theorem flowPredDeadline_le (now avg dev : UInt64) (hintUs : UInt32) :
    (flowPredDeadline now avg dev hintUs).toNat ≤ now.toNat + 2 ^ 42 := by
  unfold flowPredDeadline flowDeadlineAt
  simp only
  rw [flowSatAdd_toNat]
  split_ifs with h
  · have := flowTaskPeriod_le hintUs
    omega
  · have := (flowPredPeriod_bounds dev h).2
    omega

end ScxFlow
