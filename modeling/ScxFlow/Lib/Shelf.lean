import Mathlib.Algebra.BigOperators.Finprod
import Mathlib.Data.List.Count

/-!
# Families of lists

A family of lists, of which finitely many hold anything, holds so many elements of a kind in all.
Changing one list changes that number by what the list gains and loses, so moving an element from
one list to another leaves it as it was.
-/

namespace Shelf

variable {ι α : Type*}

/-- Finitely many lists hold anything. -/
def Finite (q : ι → List α) : Prop := {i | q i ≠ []}.Finite

/-- How many elements `P` accepts over all lists. -/
noncomputable def held (q : ι → List α) (P : α → Bool) : ℕ := ∑ᶠ i, (q i).countP P

variable {q : ι → List α} {P : α → Bool}

theorem Finite.update [DecidableEq ι] (h : Finite q) (i : ι) (l : List α) : Finite (Function.update q i l) := by
  refine (h.insert i).subset fun j hj => ?_
  by_cases hi : j = i
  · exact Or.inl hi
  · refine Or.inr ?_
    rwa [Set.mem_ofPred_eq, Function.update_of_ne hi] at hj

theorem Finite.support (h : Finite q) (P : α → Bool) :
    (Function.support fun i => (q i).countP P).Finite := by
  refine h.subset fun i hi hnil => hi ?_
  show (q i).countP P = 0
  rw [hnil, List.countP_nil]

/-- What one list loses and gains is what the family does. -/
theorem held_update [DecidableEq ι] (h : Finite q) (i : ι) (l : List α) :
    held (Function.update q i l) P + (q i).countP P = held q P + l.countP P := by
  classical
  have hsum : ∀ q' : ι → List α, (∀ j, j ≠ i → q' j = q j) →
      held q' P = (q' i).countP P + ∑ j ∈ (h.support P).toFinset.erase i, (q j).countP P := by
    intro q' hq'
    have hsub : (Function.support fun j => (q' j).countP P)
        ⊆ ↑(insert i ((h.support P).toFinset.erase i)) := by
      intro j hj
      by_cases hi : j = i
      · simp [hi]
      · have hj' : (q j).countP P ≠ 0 := by rwa [Function.mem_support, hq' j hi] at hj
        simpa [hi] using hj'
    rw [held, finsum_eq_sum_of_support_subset _ hsub, Finset.sum_insert (Finset.notMem_erase _ _)]
    congr 1
    exact Finset.sum_congr rfl fun j hj => by rw [hq' j (Finset.ne_of_mem_erase hj)]
  rw [hsum q fun _ _ => rfl, hsum _ fun j hj => Function.update_of_ne hj _ _,
    Function.update_self]
  omega

theorem held_eq_zero_of_forall (h : ∀ i, ∀ a ∈ q i, P a = false) : held q P = 0 := by
  have hzero : (fun i => (q i).countP P) = fun _ => 0 := by
    funext i
    rw [List.countP_eq_zero]
    intro a ha
    rw [h i a ha]
    exact Bool.false_ne_true
  rw [held, hzero, finsum_zero]

/-- A list holds no more than the family, and two lists no more together. -/
theorem countP_add_le_held [DecidableEq ι] (h : Finite q) {i j : ι} (hij : i ≠ j) :
    (q i).countP P + (q j).countP P ≤ held q P := by
  classical
  have hi := held_update (P := P) h i []
  have hj := held_update (P := P) (h.update i []) j []
  rw [Function.update_of_ne (Ne.symm hij)] at hj
  simp only [List.countP_nil, Nat.add_zero] at hi hj
  omega

theorem countP_le_held [DecidableEq ι] (h : Finite q) (i : ι) : (q i).countP P ≤ held q P := by
  have hi := held_update (P := P) h i []
  simp only [List.countP_nil, Nat.add_zero] at hi
  omega

/-- Where the family holds something, a list does. -/
theorem exists_of_held_ne_zero (h : held q P ≠ 0) : ∃ i, ∃ a ∈ q i, P a = true := by
  by_contra hno
  refine h (held_eq_zero_of_forall fun i a ha => ?_)
  rw [← Bool.not_eq_true]
  exact fun hP => hno ⟨i, a, ha, hP⟩

section Only

variable {C : ι → Bool}

/-- The lists of a class, and no others. -/
def only (C : ι → Bool) (q : ι → List α) : ι → List α := fun i => if C i then q i else []

theorem only_update_self [DecidableEq ι] {i : ι} (hi : C i = true) (q : ι → List α) (l : List α) :
    only C (Function.update q i l) = Function.update (only C q) i l := by
  funext j
  by_cases hj : j = i
  · subst hj
    simp [only, hi]
  · simp [only, hj]

theorem only_update_other [DecidableEq ι] {i : ι} (hi : C i = false) (q : ι → List α)
    (l : List α) : only C (Function.update q i l) = only C q := by
  funext j
  by_cases hj : j = i
  · subst hj
    simp [only, hi]
  · simp [only, hj]

theorem Finite.only (h : Finite q) (C : ι → Bool) : Finite (only C q) := by
  refine h.subset fun i hi hnil => hi ?_
  simp [Shelf.only, hnil]

/-- What a list loses and gains, its class does where it is one of it. -/
theorem held_only_update [DecidableEq ι] (h : Finite q) (i : ι) (l : List α) :
    held (only C (Function.update q i l)) P + (if C i then (q i).countP P else 0)
      = held (only C q) P + if C i then l.countP P else 0 := by
  rcases hi : C i with _ | _
  · rw [only_update_other hi, if_neg Bool.false_ne_true, if_neg Bool.false_ne_true]
  · have hone := held_update (P := P) (h.only C) i l
    rw [only_update_self hi, if_pos rfl, if_pos rfl, ← hone]
    simp [only, hi]

theorem held_only_one [DecidableEq ι] (q : ι → List α) (i : ι) :
    held (only (fun j => decide (j = i)) q) P = (q i).countP P := by
  have hone (j : ι) (hj : j ≠ i) : (only (fun j => decide (j = i)) q j).countP P = 0 := by
    simp [only, hj]
  rw [held, finsum_eq_single _ i hone]
  simp [only]

end Only

end Shelf
