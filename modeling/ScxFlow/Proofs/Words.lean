import ScxFlow.Burst
import ScxFlow.Lib.Serial

/-!
# The word helpers as arithmetic

The wrap-safe order and the saturating sum of `intf.h` are the serial order and the clamped sum of
64 bit words; each helper built on them gets its meaning here once, on values.
-/

namespace ScxFlow

section OrderSum

theorem flowTimeBefore_eq (a b : UInt64) :
    flowTimeBefore a b = Serial.before a.toBitVec b.toBitVec := by
  unfold flowTimeBefore Serial.before
  rw [Bool.eq_iff_iff, decide_eq_true_iff, ← BitVec.slt_zero_iff_msb_cond, Int64.lt_iff_toInt_lt,
    BitVec.slt_iff_toInt_lt]
  rfl

@[simp] theorem flowTimeBefore_self (a : UInt64) : flowTimeBefore a a = false := by
  rw [flowTimeBefore_eq, Serial.before_self]

theorem flowTimeBefore_of_lt {a b : UInt64} (h : a.toNat < b.toNat)
    (hd : b.toNat - a.toNat ≤ 2 ^ 63) : flowTimeBefore a b = true := by
  rw [flowTimeBefore_eq]
  exact Serial.before_of_lt h (by show 2 * (b.toNat - a.toNat) ≤ 2 ^ 64; omega)

theorem not_flowTimeBefore_of_le {a b : UInt64} (h : b.toNat ≤ a.toNat)
    (hd : a.toNat - b.toNat < 2 ^ 63) : flowTimeBefore a b = false := by
  rw [flowTimeBefore_eq]
  exact Serial.not_before_of_le h (by show 2 * (a.toNat - b.toNat) < 2 ^ 64; omega)

theorem flowTimeBefore_iff {a b : UInt64} :
    flowTimeBefore a b = true ↔ (a.toNat < b.toNat ∧ b.toNat - a.toNat ≤ 2 ^ 63)
      ∨ b.toNat + 2 ^ 63 ≤ a.toNat := by
  have h := Serial.before_iff_toNat (a := a.toBitVec) (b := b.toBitVec)
  rw [flowTimeBefore_eq, h]
  show (a.toNat < b.toNat ∧ 2 * (b.toNat - a.toNat) ≤ 2 ^ 64)
    ∨ 2 * b.toNat + 2 ^ 64 ≤ 2 * a.toNat ↔ _
  omega

theorem flowSatAdd_toNat (a b : UInt64) :
    (flowSatAdd a b).toNat = min (a.toNat + b.toNat) (2 ^ 64 - 1) := by
  have h : (flowSatAdd a b).toBitVec = Serial.satAdd a.toBitVec b.toBitVec := by
    unfold flowSatAdd Serial.satAdd
    simp only [UInt64.lt_iff_toBitVec_lt, UInt64.toBitVec_add]
    split_ifs
    · rfl
    · rfl
  have hs := Serial.satAdd_toNat a.toBitVec b.toBitVec
  rw [← h] at hs
  exact hs

theorem flowSatAdd_toNat_of_lt {a b : UInt64} (h : a.toNat + b.toNat < 2 ^ 64) :
    (flowSatAdd a b).toNat = a.toNat + b.toNat := by
  rw [flowSatAdd_toNat]
  omega

theorem le_flowSatAdd (a b : UInt64) : a.toNat ≤ (flowSatAdd a b).toNat := by
  have ha := a.toNat_lt
  rw [flowSatAdd_toNat]
  omega

theorem toNat_sub_of_le {a b : UInt64} (h : b.toNat ≤ a.toNat) :
    (a - b).toNat = a.toNat - b.toNat :=
  UInt64.toNat_sub_of_le a b (UInt64.le_iff_toNat_le.mpr h)

end OrderSum

section Values

theorem toNat_pos_iff {x : UInt64} : 0 < x.toNat ↔ x ≠ 0 := by
  rw [Nat.pos_iff_ne_zero, ne_eq, ne_eq, ← UInt64.toNat_inj, UInt64.toNat_zero]

theorem toNat_u64Max : u64Max.toNat = 2 ^ 64 - 1 := rfl

theorem ne_u64Max {x : UInt64} (h : x.toNat < 2 ^ 64 - 1) : x ≠ u64Max := by
  rintro rfl
  exact absurd h (lt_irrefl _)

theorem toNat_shiftRight {s : UInt64} (x : UInt64) (hs : s.toNat < 64) :
    (x >>> s).toNat = x.toNat / 2 ^ s.toNat := by
  rw [UInt64.toNat_shiftRight, Nat.mod_eq_of_lt hs, Nat.shiftRight_eq_div_pow]

theorem toNat_ite_gt (x y : UInt64) : (if x > y then y else x).toNat = min x.toNat y.toNat := by
  rw [apply_ite UInt64.toNat]
  simp only [gt_iff_lt, UInt64.lt_iff_toNat_lt]
  split_ifs <;> omega

theorem toNat_ite_lt (x y : UInt64) : (if x < y then y else x).toNat = max x.toNat y.toNat := by
  rw [apply_ite UInt64.toNat]
  simp only [UInt64.lt_iff_toNat_lt]
  split_ifs <;> omega

/-- The clamps of the source test the floor first. -/
theorem toNat_clamp {lo hi : UInt64} (v : UInt64) (h : lo ≤ hi) :
    (if v < lo then lo else if v > hi then hi else v).toNat
      = max lo.toNat (min v.toNat hi.toNat) := by
  rw [UInt64.le_iff_toNat_le] at h
  rw [apply_ite UInt64.toNat, toNat_ite_gt]
  simp only [UInt64.lt_iff_toNat_lt]
  split_ifs <;> omega

/-- The same clamp into 32 bits. -/
theorem toNat_clamp_toUInt32 {lo hi : UInt64} (v : UInt64) (h : lo ≤ hi) (hhi : hi.toNat < 2 ^ 32) :
    (if v < lo then lo.toUInt32 else if v > hi then hi.toUInt32 else v.toUInt32).toNat
      = max lo.toNat (min v.toNat hi.toNat) := by
  have hclamp := toNat_clamp v h
  rw [UInt64.le_iff_toNat_le] at h
  rw [← hclamp, ← apply_ite UInt64.toUInt32, ← apply_ite UInt64.toUInt32, UInt64.toNat_toUInt32,
    hclamp]
  omega

theorem flowMissed_eq (deadline now : UInt64) :
    flowMissed deadline now = !flowDeadlineOk deadline now := by
  unfold flowMissed flowDeadlineOk
  split_ifs <;> rfl

@[simp] theorem flowMissed_zero (now : UInt64) : flowMissed 0 now = false := by
  simp [flowMissed]

theorem lt_of_flowMissed {deadline now : UInt64} (hd : deadline.toNat - now.toNat ≤ 2 ^ 63)
    (h : flowMissed deadline now = true) : deadline.toNat < now.toNat := by
  unfold flowMissed at h
  split_ifs at h with h0 hb he
  by_contra hn
  rcases Nat.lt_or_ge now.toNat deadline.toNat with hlt | hge
  · exact hb (flowTimeBefore_of_lt hlt hd)
  · exact he (UInt64.toNat_inj.mp (by omega))

end Values

end ScxFlow
