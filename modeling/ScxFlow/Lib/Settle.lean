import Mathlib.Data.Set.Function
import Mathlib.Dynamics.FixedPoints.Basic
import Mathlib.Order.Monotone.Basic

/-!
# Maps whose iterates settle

A map settles from a point when its iterates reach a fixed point.  It does where a measure drops at
every step that moves, as long as the steps keep the region the measure is good for.
-/

open Function

namespace Settle

variable {α β : Type*} {f : α → α} {I : α → Prop} {x y : α}

/-- The iterates from `x` reach `y` and stay. -/
def SettlesAt (f : α → α) (x y : α) : Prop := ∃ n, f^[n] x = y ∧ IsFixedPt f y

theorem SettlesAt.eventually (h : SettlesAt f x y) : ∃ n, ∀ m, n ≤ m → f^[m] x = y := by
  obtain ⟨n, hn, hy⟩ := h
  refine ⟨n, fun m hm => ?_⟩
  obtain ⟨j, rfl⟩ := Nat.exists_eq_add_of_le hm
  rw [Nat.add_comm, iterate_add_apply, hn]
  exact hy.iterate j

/-- A settled point settles at itself. -/
theorem SettlesAt.refl (h : IsFixedPt f x) : SettlesAt f x x := ⟨0, rfl, h⟩

theorem SettlesAt.of_step (h : SettlesAt f (f x) y) : SettlesAt f x y := by
  obtain ⟨n, hn, hy⟩ := h
  exact ⟨n + 1, hn, hy⟩

theorem iterate_keeps (hI : ∀ x, I x → I (f x)) (hx : I x) (n : ℕ) : I (f^[n] x) :=
  Set.MapsTo.iterate (s := {x | I x}) (fun x hx => hI x hx) n hx

/-- A region the steps keep holds the point they settle at. -/
theorem SettlesAt.keeps (h : SettlesAt f x y) (hI : ∀ x, I x → I (f x)) (hx : I x) : I y := by
  obtain ⟨n, rfl, -⟩ := h
  exact iterate_keeps hI hx n

/-- Where every step that moves drops the measure, the map settles. -/
theorem settles (μ : α → ℕ) (hI : ∀ x, I x → I (f x))
    (hμ : ∀ x, I x → f x ≠ x → μ (f x) < μ x) (hx : I x) : ∃ y, SettlesAt f x y := by
  induction hm : μ x using Nat.strong_induction_on generalizing x with
  | _ m ih =>
    by_cases hfix : f x = x
    · exact ⟨x, .refl hfix⟩
    · obtain ⟨y, hy⟩ := ih (μ (f x)) (hm ▸ hμ x hx hfix) (hI x hx) rfl
      exact ⟨y, hy.of_step⟩

/-- A quantity that no step within a region lowers is monotone along the iterates. -/
theorem monotone_iterates [Preorder β] (g : α → β) (hI : ∀ x, I x → I (f x))
    (hle : ∀ x, I x → g x ≤ g (f x)) (hx : I x) : Monotone fun n => g (f^[n] x) :=
  monotone_nat_of_le_succ fun n => by
    rw [iterate_succ_apply']
    exact hle _ (iterate_keeps hI hx n)

theorem antitone_iterates [Preorder β] (g : α → β) (hI : ∀ x, I x → I (f x))
    (hle : ∀ x, I x → g (f x) ≤ g x) (hx : I x) : Antitone fun n => g (f^[n] x) :=
  antitone_nat_of_succ_le fun n => by
    rw [iterate_succ_apply']
    exact hle _ (iterate_keeps hI hx n)

end Settle
