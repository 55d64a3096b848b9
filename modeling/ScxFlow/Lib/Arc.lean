import Mathlib.Data.BitVec
import Mathlib.Data.Finset.Max
import Mathlib.Tactic.Abel

/-!
# Arcs of a machine word

A window of times that may wrap is an arc: the words at most a length past its start.  Arcs that
share a word share one of their starts, so whether they meet is decided at the starts.
-/

/-- The words at most `len` past `start`. -/
structure Arc (w : ℕ) where
  start : BitVec w
  len : BitVec w

namespace Arc

variable {w : ℕ}

def Has (a : Arc w) (n : BitVec w) : Prop := n - a.start ≤ a.len

instance (a : Arc w) (n : BitVec w) : Decidable (a.Has n) :=
  inferInstanceAs (Decidable (n - a.start ≤ a.len))

/-- One of the arcs starts within all of them. -/
def Meet (arcs : List (Arc w)) : Prop := ∃ a ∈ arcs, ∀ b ∈ arcs, b.Has a.start

instance (arcs : List (Arc w)) : Decidable (Meet arcs) :=
  inferInstanceAs (Decidable (∃ a ∈ arcs, ∀ b ∈ arcs, b.Has a.start))

theorem sub_le_self {x y : BitVec w} (h : y ≤ x) : x - y ≤ x := by
  rw [BitVec.le_def, BitVec.toNat_sub_of_le h]
  exact Nat.sub_le _ _

/-- Back from a word within every arc, the first start is within every arc. -/
theorem exists_has_iff {arcs : List (Arc w)} (hne : arcs ≠ []) :
    (∃ n, ∀ a ∈ arcs, a.Has n) ↔ Meet arcs := by
  constructor
  · rintro ⟨n, hn⟩
    obtain ⟨a, ha, hmin⟩ := Multiset.exists_min_image (fun a : Arc w => (n - a.start).toNat)
      (s := (arcs : Multiset (Arc w))) (by simpa using hne)
    refine ⟨a, ha, fun b hb => ?_⟩
    have hback : a.start - b.start = (n - b.start) - (n - a.start) := by abel
    have hle : (n - b.start) - (n - a.start) ≤ n - b.start := sub_le_self (hmin b hb)
    unfold Has
    rw [hback]
    exact BitVec.le_trans hle (hn b hb)
  · rintro ⟨a, -, h⟩
    exact ⟨a.start, h⟩

/-- The words from `lo` to `hi` before `d`. -/
def before (d lo hi : BitVec w) : Arc w := ⟨d - hi, hi - lo⟩

/-- The words from `lo` to `hi` past `d`. -/
def after (d lo hi : BitVec w) : Arc w := ⟨d + lo, hi - lo⟩

theorem has_before {d lo hi n : BitVec w} (h : lo ≤ hi) :
    (before d lo hi).Has n ↔ lo ≤ d - n ∧ d - n ≤ hi := by
  have hback : n - (d - hi) = hi - (d - n) := by abel
  unfold before Has
  rw [hback]
  generalize d - n = x
  simp only [BitVec.le_def] at h ⊢
  have hx := x.isLt
  rw [BitVec.toNat_sub_of_le h]
  by_cases hle : x.toNat ≤ hi.toNat
  · rw [BitVec.toNat_sub_of_le hle]
    omega
  · have hsub : (hi - x).toNat = 2 ^ w - x.toNat + hi.toNat := by
      rw [BitVec.toNat_sub, Nat.mod_eq_of_lt (by omega)]
    rw [hsub]
    omega

theorem has_after {d lo hi n : BitVec w} (h : lo ≤ hi) :
    (after d lo hi).Has n ↔ lo ≤ n - d ∧ n - d ≤ hi := by
  have hback : n - (d + lo) = n - d - lo := by abel
  unfold after Has
  rw [hback]
  generalize n - d = x
  simp only [BitVec.le_def] at h ⊢
  have hlo := lo.isLt
  have hhi := hi.isLt
  rw [BitVec.toNat_sub_of_le h]
  by_cases hle : lo.toNat ≤ x.toNat
  · rw [BitVec.toNat_sub_of_le hle]
    omega
  · have hsub : (x - lo).toNat = 2 ^ w - lo.toNat + x.toNat := by
      rw [BitVec.toNat_sub, Nat.mod_eq_of_lt (by omega)]
    rw [hsub]
    omega

/-- The words past `t` and up to `last`, where there are any. -/
theorem has_after_iff_lt {t last n : BitVec w} (h : t < last) :
    (after t 1 (last - t)).Has n ↔ t < n ∧ n ≤ last := by
  have hlt := BitVec.lt_def.mp h
  have hl := last.isLt
  have hw : 0 < w := by
    by_contra h0
    obtain rfl : w = 0 := by omega
    omega
  have hone : (1 : BitVec w).toNat = 1 := BitVec.toNat_one hw
  have hsub : (last - t).toNat = last.toNat - t.toNat :=
    BitVec.toNat_sub_of_le (BitVec.le_of_lt h)
  rw [has_after (by rw [BitVec.le_def]; omega)]
  simp only [BitVec.le_def, BitVec.lt_def, hone, hsub]
  by_cases hle : t.toNat ≤ n.toNat
  · rw [BitVec.toNat_sub_of_le hle]
    omega
  · have hback : (n - t).toNat = 2 ^ w - t.toNat + n.toNat := by
      rw [BitVec.toNat_sub, Nat.mod_eq_of_lt (by omega)]
    rw [hback]
    omega

end Arc
