import ScxFlow.Lifecycle
import ScxFlow.Proofs.Red

/-!
# The ranges of the stored words

What every clamp, hold and step of the source keeps of the fields of a task: a slice from the floor
to the quantum, a burst from one nanosecond to a second, a share from one to 16384.
-/

namespace ScxFlow

/-- A word between two bounds. -/
def Between (lo hi : ℕ) (x : UInt32) : Prop := lo ≤ x.toNat ∧ x.toNat ≤ hi

instance (lo hi : ℕ) (x : UInt32) : Decidable (Between lo hi x) :=
  inferInstanceAs (Decidable (_ ∧ _))

/-- A clamp into 32 bits lies between its bounds. -/
theorem between_clamp {lo hi : UInt64} (h : lo ≤ hi) (hhi : hi.toNat < 2 ^ 32) (x : UInt64) :
    Between lo.toNat hi.toNat
      (if x < lo then lo.toUInt32 else if x > hi then hi.toUInt32 else x.toUInt32) := by
  have hle := UInt64.le_iff_toNat_le.mp h
  unfold Between
  rw [toNat_clamp_toUInt32 x h hhi]
  omega

abbrev SliceIn : UInt32 → Prop := Between 10000 1000000

abbrev BurstIn : UInt32 → Prop := Between 1 1000000000

abbrev ShareIn : UInt32 → Prop := Between 1 16384

section Slices

theorem sliceIn_min : SliceIn flowSliceMinNs.toUInt32 := by decide

theorem sliceIn_quantum : SliceIn flowQuantumNs.toUInt32 := by decide

theorem min_le_quantum : flowSliceMinNs ≤ flowQuantumNs := by decide

/-- Every clamp of a slice starts at the floor, and its cap is no more than the quantum. -/
theorem sliceIn_clamp {cap : UInt64} (hlo : flowSliceMinNs ≤ cap) (hhi : cap ≤ flowQuantumNs)
    (x : UInt64) : SliceIn (if x < flowSliceMinNs then flowSliceMinNs.toUInt32
      else if x > cap then cap.toUInt32 else x.toUInt32) := by
  have hcap : cap.toNat ≤ 1000000 := UInt64.le_iff_toNat_le.mp hhi
  obtain ⟨hmin, hmax⟩ := between_clamp hlo (by omega) x
  exact ⟨hmin, hmax.trans hcap⟩

theorem flowSliceFor_in (deadline now : UInt64) : SliceIn (flowSliceFor deadline now) := by
  unfold flowSliceFor
  exact sliceIn_clamp min_le_quantum (UInt64.le_refl _) _

theorem flowSliceLatClamp_in {slice : UInt32} (h : SliceIn slice) (isLat : Bool) :
    SliceIn (flowSliceLatClamp slice isLat) := by
  unfold flowSliceLatClamp
  split
  · decide
  · exact h

theorem flowSliceLatClamp_le_lat (slice : UInt32) :
    (flowSliceLatClamp slice true).toNat ≤ 100000 := by
  unfold flowSliceLatClamp
  split_ifs with h
  · decide
  · simpa [UInt32.lt_iff_toNat_lt] using h

theorem flowSliceTierCap_in {pre : UInt32} (h : SliceIn pre) (avg dev : UInt64) (isLat : Bool) :
    SliceIn (flowSliceTierCap pre avg dev isLat) := by
  have htier {tier : UInt32} (h : tier ∈ [flowSliceUllNs.toUInt32, flowSliceLlNs.toUInt32,
      flowSliceMllNs.toUInt32, flowSliceNlNs.toUInt32, flowSliceEnlNs.toUInt32,
      flowSliceMaxNs.toUInt32]) :
      SliceIn (if tier > flowQuantumNs.toUInt32 then flowQuantumNs.toUInt32 else tier) := by
    simp only [List.mem_cons, List.not_mem_nil, or_false] at h
    rcases h with rfl | rfl | rfl | rfl | rfl | rfl
    all_goals decide
  have hmem : flowClassifyLatencyTier avg dev isLat ∈ [flowSliceUllNs.toUInt32,
      flowSliceLlNs.toUInt32, flowSliceMllNs.toUInt32, flowSliceNlNs.toUInt32,
      flowSliceEnlNs.toUInt32, flowSliceMaxNs.toUInt32] := by
    unfold flowClassifyLatencyTier
    simp only
    split_ifs <;> simp
  have hcap := htier hmem
  unfold flowSliceTierCap
  simp only
  generalize (if flowClassifyLatencyTier avg dev isLat > flowQuantumNs.toUInt32
    then flowQuantumNs.toUInt32 else flowClassifyLatencyTier avg dev isLat) = tier at hcap
  split
  · exact hcap
  · exact h

theorem flowSliceInherit_in {cur : UInt32} (h : SliceIn cur) : SliceIn (flowSliceInherit cur) := by
  unfold flowSliceInherit
  split
  · exact sliceIn_quantum
  · exact h

theorem flowSliceInherit_of_in {cur : UInt32} (h : SliceIn cur) : flowSliceInherit cur = cur := by
  unfold flowSliceInherit
  rw [if_neg]
  rintro rfl
  exact absurd h (by decide)

theorem flowSliceMissHold_in {cur : UInt32} (h : SliceIn cur) :
    SliceIn (flowSliceMissHold cur) := by
  unfold flowSliceMissHold
  simp only
  split
  · exact sliceIn_min
  · exact flowSliceInherit_in h

/-- The cap of a resumed head. -/
theorem resumeCap_in (occLat : Bool) :
    flowSliceMinNs ≤ (if occLat then flowSliceLatNs else flowQuantumNs)
      ∧ (if occLat then flowSliceLatNs else flowQuantumNs) ≤ flowQuantumNs := by
  cases occLat <;> decide

theorem flowSliceResume_in (occStart now : UInt64) (occLat : Bool) {cur : UInt32}
    (h : SliceIn cur) : SliceIn (flowSliceResume occStart now occLat cur) := by
  obtain ⟨hmin, hmax⟩ := resumeCap_in occLat
  unfold flowSliceResume
  simp only
  split
  · exact flowSliceInherit_in h
  split
  · exact flowSliceInherit_in h
  · exact sliceIn_clamp hmin hmax _

/-- What a head resumes with, as long as its end is no `u64Max`. -/
theorem flowSliceResume_clamps {occStart : UInt64} (now : UInt64) (occLat : Bool) {cur : UInt32}
    (h0 : occStart ≠ 0) (h : SliceIn cur) (hend : occStart.toNat + cur.toNat < 2 ^ 64 - 1) :
    (flowSliceResume occStart now occLat cur).toNat
      = max 10000 (min (flowResumeRem (flowSatAdd occStart cur.toUInt64) now).toNat
        (if occLat then flowSliceLatNs else flowQuantumNs).toNat) := by
  have hstart : ¬ (occStart = 0 ∨ occStart = u64Max) :=
    not_or.mpr ⟨h0, ne_u64Max (by omega)⟩
  have hocc : flowSatAdd occStart cur.toUInt64 ≠ u64Max := ne_u64Max (by
    rw [flowSatAdd_toNat, UInt32.toNat_toUInt64]
    omega)
  obtain ⟨hmin, hmax⟩ := resumeCap_in occLat
  have hmax' : (if occLat then flowSliceLatNs else flowQuantumNs).toNat ≤ 1000000 :=
    UInt64.le_iff_toNat_le.mp hmax
  unfold flowSliceResume
  simp only
  rw [if_neg hstart, flowSliceInherit_of_in h, if_neg hocc]
  exact toNat_clamp_toUInt32 _ hmin (by omega)

/-- A latency critical head resumes with no more than its cap, as long as its end is no `u64Max`. -/
theorem flowSliceResume_le_lat {occStart : UInt64} (now : UInt64) {cur : UInt32}
    (h0 : occStart ≠ 0) (h : SliceIn cur) (hend : occStart.toNat + cur.toNat < 2 ^ 64 - 1) :
    (flowSliceResume occStart now true cur).toNat ≤ 100000 := by
  rw [flowSliceResume_clamps now true h0 h hend]
  show max 10000 (min _ 100000) ≤ 100000
  omega

theorem flowCarryFor_in (delta : UInt64) : SliceIn (flowCarryFor delta) := by
  unfold flowCarryFor
  simp only
  split
  · exact sliceIn_min
  · exact sliceIn_clamp min_le_quantum (UInt64.le_refl _) _

theorem flowAdaptProp_in (cur : UInt32) (exceed slack : UInt64) :
    SliceIn (flowAdaptProp cur exceed slack) := by
  have hclamp (s : UInt64) : SliceIn (flowAdaptClamp s) := by
    unfold flowAdaptClamp
    exact sliceIn_clamp min_le_quantum (UInt64.le_refl _) s
  unfold flowAdaptProp
  simp only
  split_ifs
  all_goals first | exact hclamp _ | exact sliceIn_min

end Slices

section Bursts

theorem flowPredClamp_in (v : UInt64) :
    1 ≤ (flowPredClamp v).toNat ∧ (flowPredClamp v).toNat ≤ 1000000000 := by
  rw [flowPredClamp_toNat]
  omega

theorem flowPredAvg_in (avg delta : UInt64) :
    1 ≤ (flowPredAvg avg delta).toNat ∧ (flowPredAvg avg delta).toNat ≤ 1000000000 := by
  unfold flowPredAvg
  extract_lets d up down
  split
  · exact flowPredClamp_in _
  · split
    · exact flowPredClamp_in _
    · split
      · exact ⟨le_refl 1, by decide⟩
      · exact flowPredClamp_in _

theorem flowPredDev_in (dev avg delta : UInt64) :
    1 ≤ (flowPredDev dev avg delta).toNat ∧ (flowPredDev dev avg delta).toNat ≤ 1000000000 := by
  unfold flowPredDev
  extract_lets d a gap err floor up down
  split
  · split
    · exact flowPredClamp_in _
    · exact flowPredClamp_in _
  · split
    · exact flowPredClamp_in _
    · split
      · exact ⟨le_refl 1, by decide⟩
      · exact flowPredClamp_in _

/-- A burst fits its 32 bit field. -/
theorem burst_store {x : UInt64} (h : 1 ≤ x.toNat ∧ x.toNat ≤ 1000000000) :
    BurstIn x.toUInt32 ∧ x.toUInt32.toUInt64 = x := by
  have hfit : x.toUInt32.toNat = x.toNat := by
    rw [UInt64.toNat_toUInt32]
    omega
  refine ⟨?_, UInt64.toNat_inj.mp ?_⟩
  · unfold BurstIn Between
    rwa [hfit]
  · rw [UInt32.toNat_toUInt64, hfit]

theorem flowWeightClamp_in (w : UInt32) : ShareIn (flowWeightClamp w) := by
  unfold flowWeightClamp
  split_ifs with h₁ h₂
  · decide
  · decide
  · rw [UInt32.lt_iff_toNat_lt, not_lt] at h₁
    rw [gt_iff_lt, UInt32.lt_iff_toNat_lt, not_lt] at h₂
    exact ⟨h₁, h₂⟩

theorem flowWeightClamp_of_in {weight : UInt32} (h : ShareIn weight) :
    flowWeightClamp weight = weight := by
  have hlo : ¬ weight < flowWeightMin.toUInt32 := by
    rw [UInt32.lt_iff_toNat_lt, not_lt]
    exact h.1
  have hhi : ¬ weight > flowWeightMax.toUInt32 := by
    rw [gt_iff_lt, UInt32.lt_iff_toNat_lt, not_lt]
    exact h.2
  unfold flowWeightClamp
  rw [if_neg hlo, if_neg hhi]

theorem flowTaskEffectiveWeight_in (taskW hintW : UInt32) :
    ShareIn (flowTaskEffectiveWeight taskW hintW) := by
  have hrange : flowWeightMin ≤ flowWeightMax := by decide
  have hword : flowWeightMax.toNat < 2 ^ 32 := by decide
  unfold flowTaskEffectiveWeight flowShareCombine
  exact between_clamp hrange hword _

/-- What a stop saves of its cost is no more than the cost, which ends at twenty milliseconds. -/
theorem flowStopCommit_adaptDelta_le (s : FlowStopTail) :
    (flowStopCommit s).adaptDelta.toNat ≤ 20000000 := by
  have hcost : (flowRedCost s.costAvg s.costSlice).toNat ≤ 20000000 := by
    rw [flowRedCost_toNat]
    split_ifs <;> omega
  unfold flowStopCommit
  simp only
  generalize flowRedCost s.costAvg s.costSlice = cost at hcost
  have hsaved : (if cost > s.delta then cost - s.delta else 0).toNat ≤ 20000000 := by
    split
    · rename_i hlt
      rw [gt_iff_lt, UInt64.lt_iff_toNat_lt] at hlt
      rw [toNat_sub_of_le hlt.le]
      omega
    · exact Nat.zero_le _
  generalize (if cost > s.delta then cost - s.delta else 0) = saved at hsaved
  have hfit : ¬ saved > 0xffffffff := by
    rw [gt_iff_lt, UInt64.lt_iff_toNat_lt, not_lt]
    exact hsaved.trans (by decide)
  rw [if_neg hfit, UInt64.toNat_toUInt32]
  omega

end Bursts

end ScxFlow
