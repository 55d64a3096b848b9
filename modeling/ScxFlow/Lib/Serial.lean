import Mathlib.Data.BitVec

/-!
# Serial numbers in a machine word

Times that wrap are compared by the sign of their difference.  Within half the range of each other
the comparison is the order of the values; the saturating sum clamps to the greatest word.
-/

namespace Serial

variable {w : ℕ}

/-- `a` comes before `b`: their difference is negative as a signed word. -/
def before (a b : BitVec w) : Bool := (a - b).msb

/-- The sum, clamped to the greatest word where it wraps. -/
def satAdd (a b : BitVec w) : BitVec w :=
  if a + b < a then BitVec.allOnes w else a + b

@[simp] theorem before_self (a : BitVec w) : before a a = false := by
  simp [before]

theorem before_iff {a b : BitVec w} :
    before a b = true ↔ 2 ^ w ≤ 2 * ((a.toNat + (2 ^ w - b.toNat)) % 2 ^ w) := by
  unfold before
  rw [BitVec.msb_eq_true_iff_two_mul_ge, BitVec.toNat_sub, Nat.add_comm]

theorem before_of_lt {a b : BitVec w} (h : a.toNat < b.toNat)
    (hd : 2 * (b.toNat - a.toNat) ≤ 2 ^ w) : before a b = true := by
  rw [before_iff]
  have hb := b.isLt
  have hmod : (a.toNat + (2 ^ w - b.toNat)) % 2 ^ w = a.toNat + (2 ^ w - b.toNat) :=
    Nat.mod_eq_of_lt (by omega)
  rw [hmod]
  omega

theorem not_before_of_le {a b : BitVec w} (h : b.toNat ≤ a.toNat)
    (hd : 2 * (a.toNat - b.toNat) < 2 ^ w) : before a b = false := by
  rw [Bool.eq_false_iff, ne_eq, before_iff]
  have ha := a.isLt
  have hb := b.isLt
  have hsum : a.toNat + (2 ^ w - b.toNat) = a.toNat - b.toNat + 2 ^ w := by omega
  rw [hsum, Nat.add_mod_right, Nat.mod_eq_of_lt (by omega)]
  omega

/-- The order on values: before by at most half the range, or behind by at least as much. -/
theorem before_iff_toNat {a b : BitVec w} :
    before a b = true ↔ (a.toNat < b.toNat ∧ 2 * (b.toNat - a.toNat) ≤ 2 ^ w)
      ∨ 2 * b.toNat + 2 ^ w ≤ 2 * a.toNat := by
  have ha := a.isLt
  have hb := b.isLt
  rw [before_iff]
  rcases Nat.lt_or_ge a.toNat b.toNat with hlt | hge
  · rw [Nat.mod_eq_of_lt (by omega)]
    omega
  · have hsum : a.toNat + (2 ^ w - b.toNat) = a.toNat - b.toNat + 2 ^ w := by omega
    rw [hsum, Nat.add_mod_right, Nat.mod_eq_of_lt (by omega)]
    omega

theorem satAdd_toNat (a b : BitVec w) :
    (satAdd a b).toNat = min (a.toNat + b.toNat) (2 ^ w - 1) := by
  have ha := a.isLt
  have hb := b.isLt
  unfold satAdd
  simp only [BitVec.lt_def, BitVec.toNat_add]
  by_cases hlt : a.toNat + b.toNat < 2 ^ w
  · rw [Nat.mod_eq_of_lt hlt, if_neg (by omega), BitVec.toNat_add, Nat.mod_eq_of_lt hlt]
    omega
  · have hmod : (a.toNat + b.toNat) % 2 ^ w = a.toNat + b.toNat - 2 ^ w := by
      rw [Nat.mod_eq_sub_mod (by omega), Nat.mod_eq_of_lt (by omega)]
    rw [hmod, if_pos (by omega), BitVec.toNat_allOnes]
    omega

end Serial
