import ScxFlow.Proofs.Predictor

/-!
# The RED guarantee

A newcomer whose deadline leaves room for its cost has no exceed, and every fresh deadline of the
predictor leaves that room: with history the period covers the average that prices the cost, and
without it every hint leaves four milliseconds against a slice of one.
-/

namespace ScxFlow

theorem toInt_toInt64_of_lt {x : UInt64} (h : x.toNat < 2 ^ 63) : x.toInt64.toInt = x.toNat := by
  have hx : x = UInt64.ofNat x.toNat := UInt64.ofNat_toNat.symm
  conv_lhs => rw [hx]
  rw [UInt64.toInt64_ofNat', Int64.toInt_ofNat_of_lt h]

theorem bmod_of_small {x : ℤ} (h₁ : -2 ^ 63 ≤ x) (h₂ : x < 2 ^ 63) : x.bmod (2 ^ 64) = x :=
  Int.bmod_eq_of_le_mul_two (by omega) (by omega)

theorem flowRedResidual_of_before {deadline now cost : UInt64} (hd : deadline ≠ 0)
    (hb : flowTimeBefore now deadline = true) (hr : (deadline - now).toNat < 2 ^ 63)
    (hc : cost.toNat < 2 ^ 63) :
    (flowRedResidual deadline now cost).toInt = (deadline - now).toNat - cost.toNat := by
  unfold flowRedResidual
  rw [if_neg hd]
  simp only [hb, ↓reduceIte]
  rw [Int64.toInt_sub, toInt_toInt64_of_lt hr, toInt_toInt64_of_lt hc]
  exact bmod_of_small (by omega) (by omega)

theorem flowRedTol_le (isCrit : Bool) : (flowRedTol isCrit).toNat ≤ 64000 := by
  unfold flowRedTol
  split
  · simp
  · rfl

theorem flowRedExceed_of_room {deadline now cost : UInt64} (hd : deadline ≠ 0)
    (hb : flowTimeBefore now deadline = true) (hr : (deadline - now).toNat < 2 ^ 62)
    (hc : cost.toNat ≤ (deadline - now).toNat) (isCrit : Bool) :
    flowRedExceed (flowRedResidual deadline now cost) (flowRedTol isCrit) = 0 := by
  have hres := flowRedResidual_of_before hd hb (by omega) (by omega : cost.toNat < 2 ^ 63)
  have htol := flowRedTol_le isCrit
  unfold flowRedExceed
  simp only
  rw [if_pos]
  rw [ge_iff_le, Int64.le_iff_toInt_le, Int64.toInt_add, hres, toInt_toInt64_of_lt (by omega),
    bmod_of_small (by omega) (by omega)]
  simp
  omega

theorem flowRedCost_toNat (avg : UInt64) (slice : UInt32) :
    (flowRedCost avg slice).toNat = if avg ≠ 0 then max 10000 (min avg.toNat 20000000)
      else if slice ≠ 0 then max 10000 (min slice.toNat 20000000) else 1000000 := by
  have hrange : flowSliceMinNs ≤ flowSliceMaxNs := by decide
  unfold flowRedCost
  by_cases ha : avg ≠ 0
  · rw [if_pos ha, if_pos ha]
    exact toNat_clamp avg hrange
  rw [if_neg ha, if_neg ha]
  by_cases hs : slice ≠ 0
  · rw [if_pos hs, if_pos hs, toNat_clamp _ hrange, UInt32.toNat_toUInt64]
    rfl
  · rw [if_neg hs, if_neg hs]
    rfl

section Admission

/-- A hint that leaves room for any slice: none, or at least the shortest band. -/
def HintOk (hintUs : UInt32) : Prop := hintUs = 0 ∨ 4000 ≤ hintUs.toNat

/-- A slice within the fixed quantum. -/
def SliceOk (slice : UInt32) : Prop := slice.toNat ≤ 1000000

instance (slice : UInt32) : Decidable (SliceOk slice) :=
  inferInstanceAs (Decidable (slice.toNat ≤ 1000000))

theorem flowPredDeadline_toNat (now avg dev : UInt64) (hintUs : UInt32) :
    ∃ period, (flowPredDeadline now avg dev hintUs).toNat = min (now.toNat + period) (2 ^ 64 - 1)
      ∧ period ≤ 2 ^ 42 ∧ (avg ≠ 0 → min avg.toNat 1000000000 ≤ period)
      ∧ (avg = 0 → HintOk hintUs → 4000000 ≤ period) := by
  unfold flowPredDeadline flowDeadlineAt
  simp only
  by_cases h : avg = 0
  · rw [if_pos h, flowSatAdd_toNat]
    refine ⟨_, rfl, flowTaskPeriod_le hintUs, fun h' => absurd h h', fun _ hh => ?_⟩
    rw [flowTaskPeriod_toNat]
    rcases hh with rfl | hh
    · simp
    · split_ifs
      · omega
      · omega
  · rw [if_neg h, flowSatAdd_toNat]
    have hp := flowPredPeriod_bounds dev h
    exact ⟨_, rfl, by omega, fun _ => hp.1, fun h' => absurd h' h⟩

/-- A fresh deadline never rejects its newcomer. -/
theorem flowRedShouldReject_fresh {now avg dev : UInt64} {hintUs slice : UInt32}
    (hnow : now.toNat + 80000000 < 2 ^ 64) (hh : HintOk hintUs) (hs : SliceOk slice)
    (isCrit : Bool) :
    flowRedShouldReject (flowPredDeadline now avg dev hintUs) now avg slice isCrit = false := by
  obtain ⟨period, hd, hle, havg, hhint⟩ := flowPredDeadline_toNat now avg dev hintUs
  have hcost := flowRedCost_toNat avg slice
  unfold SliceOk at hs
  unfold flowRedShouldReject flowRedGate
  simp only
  by_cases hcheap : flowRedCost avg slice ≤ flowRedEmaxNs
  · split_ifs
    all_goals rfl
  · rw [UInt64.le_iff_toNat_le] at hcheap
    have hemax : flowRedEmaxNs.toNat = 256000 := rfl
    have hroom : (flowRedCost avg slice).toNat ≤ min period (2 ^ 64 - 1 - now.toNat) := by
      by_cases h0 : avg = 0
      · have hp := hhint h0 hh
        rw [hcost] at hcheap ⊢
        simp only [h0, ne_eq, not_true_eq_false, ↓reduceIte] at hcheap ⊢
        split_ifs at hcheap ⊢ <;> omega
      · have hp := havg h0
        rw [hcost] at hcheap ⊢
        simp only [h0, ne_eq, not_false_eq_true, ↓reduceIte] at hcheap ⊢
        omega
    generalize flowPredDeadline now avg dev hintUs = deadline at hd
    have hlt : now.toNat < deadline.toNat := by omega
    have hsub : (deadline - now).toNat = deadline.toNat - now.toNat := toNat_sub_of_le (by omega)
    have hne : deadline ≠ 0 := by
      rintro rfl
      simp at hlt
    rw [flowRedExceed_of_room hne (flowTimeBefore_of_lt hlt (by omega)) (by omega) (by omega)
      isCrit]
    rfl

end Admission

end ScxFlow
