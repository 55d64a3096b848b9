import Mathlib.Algebra.Order.Field.Basic
import Mathlib.Data.Rat.Cast.Order
import Mathlib.Tactic.FieldSimp
import Mathlib.Tactic.Linarith
import Mathlib.Tactic.Ring

/-!
# Charging at a share

A ledger charged for a service moves by the service times a base over the holder's share, rounded
down and no less than one.  Each charge is off its exact price by less than one, so over any list of
charges the ledger and the service stay in the ratio of base to share up to one a charge, however
the service was cut.
-/

namespace Share

variable {base w w' : ℕ} {ds ds' : List ℕ}

/-- The advance for a service `d` at share `w`. -/
def advance (base w d : ℕ) : ℕ := max 1 (base * d / w)

/-- The advance of a list of charges. -/
def total (base w : ℕ) (ds : List ℕ) : ℕ := (ds.map (advance base w)).sum

@[simp] theorem total_nil (base w : ℕ) : total base w [] = 0 := rfl

@[simp] theorem total_cons (base w d : ℕ) (ds : List ℕ) :
    total base w (d :: ds) = advance base w d + total base w ds := rfl

theorem one_le_advance (base w d : ℕ) : 1 ≤ advance base w d := le_max_left _ _

/-- A charge takes no more than its service and the lift of a small one to one. -/
theorem advance_mul_le {d : ℕ} (hd : 0 < base * d) :
    advance base w d * w ≤ base * d + (w - 1) := by
  unfold advance
  rcases Nat.eq_zero_or_pos (base * d / w) with hz | hpos
  · rw [hz, max_eq_left (Nat.zero_le 1), Nat.one_mul]
    omega
  · rw [max_eq_right hpos]
    exact (Nat.div_mul_le_self _ _).trans (Nat.le_add_right _ _)

/-- A charge loses no more than the remainder of its division. -/
theorem le_advance_mul (base d : ℕ) (hw : 0 < w) :
    base * d ≤ advance base w d * w + (w - 1) := by
  have hdiv := Nat.div_add_mod' (base * d) w
  have hmod := Nat.mod_lt (base * d) hw
  have hmax : base * d / w * w ≤ advance base w d * w :=
    Nat.mul_le_mul_right w (le_max_right _ _)
  omega

theorem length_le_total (base w : ℕ) : ∀ ds : List ℕ, ds.length ≤ total base w ds
  | [] => le_rfl
  | d :: ds => by
    have hd := one_le_advance base w d
    have ih := length_le_total base w ds
    rw [List.length_cons, total_cons]
    omega

theorem total_mul_le (hb : 0 < base) : ∀ {ds : List ℕ}, (∀ d ∈ ds, 0 < d) →
    total base w ds * w ≤ base * ds.sum + ds.length * (w - 1)
  | [], _ => by simp
  | d :: ds, h => by
    obtain ⟨hd, hds⟩ := List.forall_mem_cons.mp h
    have hone := advance_mul_le (w := w) (Nat.mul_pos hb hd)
    have ih := total_mul_le hb hds
    calc total base w (d :: ds) * w = advance base w d * w + total base w ds * w := by
          rw [total_cons, Nat.add_mul]
      _ ≤ (base * d + (w - 1)) + (base * ds.sum + ds.length * (w - 1)) := Nat.add_le_add hone ih
      _ = base * (d :: ds).sum + (d :: ds).length * (w - 1) := by
          rw [List.sum_cons, List.length_cons]
          ring

theorem le_total_mul (base : ℕ) (hw : 0 < w) : ∀ ds : List ℕ,
    base * ds.sum ≤ total base w ds * w + ds.length * (w - 1)
  | [] => by simp
  | d :: ds => by
    have hone := le_advance_mul base d hw
    have ih := le_total_mul base hw ds
    calc base * (d :: ds).sum = base * d + base * ds.sum := by rw [List.sum_cons, Nat.mul_add]
      _ ≤ (advance base w d * w + (w - 1)) + (total base w ds * w + ds.length * (w - 1)) :=
          Nat.add_le_add hone ih
      _ = total base w (d :: ds) * w + (d :: ds).length * (w - 1) := by
          rw [total_cons, List.length_cons]
          ring

/-- Over a list of charges the ledger is off the exact price by less than one a charge. -/
theorem total_error (hb : 0 < base) (hw : 0 < w) (hds : ∀ d ∈ ds, 0 < d) :
    |(total base w ds * w : ℤ) - base * ds.sum| ≤ ds.length * (w - 1) := by
  have hle := total_mul_le (w := w) hb hds
  have hge := le_total_mul base hw ds
  have hpred : ((w - 1 : ℕ) : ℤ) = w - 1 := by omega
  rw [abs_le, ← hpred]
  constructor
  · have h : (base * ds.sum : ℤ) ≤ total base w ds * w + ds.length * (w - 1 : ℕ) := by
      exact_mod_cast hge
    linarith
  · have h : (total base w ds * w : ℤ) ≤ base * ds.sum + ds.length * (w - 1 : ℕ) := by
      exact_mod_cast hle
    linarith

/-- Two lists of charges for the same service move their ledgers in inverse ratio of their
shares. -/
theorem total_inverse (hb : 0 < base) (hw : 0 < w) (hw' : 0 < w') (hds : ∀ d ∈ ds, 0 < d)
    (hds' : ∀ d ∈ ds', 0 < d) (hsum : ds.sum = ds'.sum) :
    |(total base w ds * w : ℤ) - total base w' ds' * w'|
      ≤ ds.length * (w - 1) + ds'.length * (w' - 1) := by
  have h := total_error hb hw hds
  have h' := total_error hb hw' hds'
  rw [abs_sub_comm, ← hsum] at h'
  calc |(total base w ds * w : ℤ) - total base w' ds' * w'|
      ≤ |(total base w ds * w : ℤ) - base * ds.sum|
        + |(base * ds.sum : ℤ) - total base w' ds' * w'| := abs_sub_le _ _ _
    _ ≤ _ := add_le_add h h'

/-- In the ledger's own unit, the error is below one a charge. -/
theorem total_near (hb : 0 < base) (hw : 0 < w) (hds : ∀ d ∈ ds, 0 < d) (hne : ds ≠ []) :
    |(total base w ds : ℚ) - base * ds.sum / w| < ds.length := by
  have hlen : (0 : ℚ) < ds.length := by exact_mod_cast List.length_pos_of_ne_nil hne
  have hwq : (0 : ℚ) < w := by exact_mod_cast hw
  have herr : |(total base w ds * w : ℚ) - base * ds.sum| ≤ ds.length * (w - 1) := by
    exact_mod_cast total_error hb hw hds
  have hscale : (total base w ds : ℚ) - base * ds.sum / w
      = (total base w ds * w - base * ds.sum) / w := by
    field_simp
  rw [hscale, abs_div, abs_of_pos hwq, div_lt_iff₀ hwq]
  calc _ ≤ (ds.length : ℚ) * (w - 1) := herr
    _ < ds.length * w := by
      rw [mul_sub, mul_one]
      linarith

end Share
