import Mathlib.Data.List.Basic
import Mathlib.Order.Basic

/-!
# Bounded walks over a list

A walk passes over the elements of a list in order, stops at the first one it accepts, and visits
no more than its budget allows.  What it passed over, what it stopped at and what it never saw make
up the list, and a walk that stops at nothing has refused every element within its budget.
-/

/-- The outcome of a walk: the refused elements, the accepted one, and the unvisited rest. -/
structure Scan (α : Type*) where
  seen : List α
  hit : Option α
  rest : List α

namespace Scan

variable {α : Type*}

/-- The walk that accepts by `ok` with a budget of visits. -/
def walk (ok : α → Bool) : ℕ → List α → Scan α
  | 0, l => ⟨[], none, l⟩
  | _ + 1, [] => ⟨[], none, []⟩
  | n + 1, a :: l =>
    if ok a then ⟨[], some a, l⟩
    else
      let r := walk ok n l
      ⟨a :: r.seen, r.hit, r.rest⟩

/-- The elements a walk visited, in order. -/
def visited (r : Scan α) : List α := r.seen ++ r.hit.toList

/-- The elements a walk leaves in place, in order. -/
def left (r : Scan α) : List α := r.seen ++ r.rest

variable (ok : α → Bool)

@[simp] theorem walk_zero (l : List α) : walk ok 0 l = ⟨[], none, l⟩ := by
  cases l <;> rfl

@[simp] theorem walk_nil (n : ℕ) : walk ok n [] = ⟨[], none, []⟩ := by
  cases n <;> rfl

theorem walk_cons_of_ok {a : α} (h : ok a = true) (n : ℕ) (l : List α) :
    walk ok (n + 1) (a :: l) = ⟨[], some a, l⟩ := by
  simp [walk, h]

theorem walk_cons_of_not {a : α} (h : ok a = false) (n : ℕ) (l : List α) :
    walk ok (n + 1) (a :: l)
      = ⟨a :: (walk ok n l).seen, (walk ok n l).hit, (walk ok n l).rest⟩ := by
  simp [walk, h]

/-- The three parts of a walk make up the list it ran over. -/
theorem walk_parts :
    ∀ (n : ℕ) (l : List α),
      (walk ok n l).seen ++ (walk ok n l).hit.toList ++ (walk ok n l).rest = l
  | 0, l => by simp
  | n + 1, [] => by simp
  | n + 1, a :: l => by
    rcases h : ok a with _ | _
    · rw [walk_cons_of_not ok h]
      simpa using walk_parts n l
    · rw [walk_cons_of_ok ok h]
      simp

theorem not_ok_of_mem_seen :
    ∀ (n : ℕ) (l : List α), ∀ a ∈ (walk ok n l).seen, ok a = false
  | 0, l => by simp
  | n + 1, [] => by simp
  | n + 1, b :: l => by
    intro a ha
    rcases h : ok b with _ | _
    · rw [walk_cons_of_not ok h] at ha
      rcases List.mem_cons.mp ha with rfl | ha
      · exact h
      · exact not_ok_of_mem_seen n l a ha
    · rw [walk_cons_of_ok ok h] at ha
      simp at ha

theorem ok_of_hit :
    ∀ (n : ℕ) (l : List α) {a : α}, (walk ok n l).hit = some a → ok a = true
  | 0, l, a, h => by simp at h
  | n + 1, [], a, h => by simp at h
  | n + 1, b :: l, a, h => by
    rcases hb : ok b with _ | _
    · rw [walk_cons_of_not ok hb] at h
      exact ok_of_hit n l h
    · rw [walk_cons_of_ok ok hb] at h
      simp only [Option.some.injEq] at h
      rw [← h]
      exact hb

theorem mem_take_of_hit :
    ∀ (n : ℕ) (l : List α) {a : α}, (walk ok n l).hit = some a → a ∈ l.take n
  | 0, l, a, h => by simp at h
  | n + 1, [], a, h => by simp at h
  | n + 1, b :: l, a, h => by
    rcases hb : ok b with _ | _
    · rw [walk_cons_of_not ok hb] at h
      exact List.mem_cons_of_mem b (mem_take_of_hit n l h)
    · rw [walk_cons_of_ok ok hb] at h
      simp only [Option.some.injEq] at h
      simp [h]

theorem visited_length_le :
    ∀ (n : ℕ) (l : List α), (walk ok n l).visited.length ≤ n
  | 0, l => by simp [visited]
  | n + 1, [] => by simp [visited]
  | n + 1, a :: l => by
    rcases h : ok a with _ | _
    · rw [walk_cons_of_not ok h]
      have ih := visited_length_le n l
      simp only [visited, List.cons_append, List.length_cons] at ih ⊢
      omega
    · rw [walk_cons_of_ok ok h]
      simp [visited]

/-- A walk spends no more visits than one on what it accepts and one on each element it refuses. -/
theorem visited_length_le_refused :
    ∀ (n : ℕ) (l : List α), (walk ok n l).visited.length ≤ l.countP (fun a => !ok a) + 1
  | 0, l => by simp [visited]
  | n + 1, [] => by simp [visited]
  | n + 1, a :: l => by
    rcases h : ok a with _ | _
    · rw [walk_cons_of_not ok h]
      have ih := visited_length_le_refused n l
      simp only [visited, List.cons_append, List.length_cons, List.countP_cons, h, Bool.not_false,
        ↓reduceIte] at ih ⊢
      omega
    · rw [walk_cons_of_ok ok h]
      simp [visited]

/-- A walk that accepts nothing has refused what its budget covers, and only then. -/
theorem hit_eq_none_iff :
    ∀ (n : ℕ) (l : List α), (walk ok n l).hit = none ↔ ∀ a ∈ l.take n, ok a = false
  | 0, l => by simp
  | n + 1, [] => by simp
  | n + 1, a :: l => by
    rcases h : ok a with _ | _
    · rw [walk_cons_of_not ok h]
      simpa [h] using hit_eq_none_iff n l
    · rw [walk_cons_of_ok ok h]
      simp [h]

theorem visited_of_hit_none :
    ∀ (n : ℕ) (l : List α), (walk ok n l).hit = none → (walk ok n l).visited = l.take n
  | 0, l, _ => by simp [visited]
  | n + 1, [], _ => by simp [visited]
  | n + 1, a :: l, hn => by
    rcases h : ok a with _ | _
    · rw [walk_cons_of_not ok h] at hn ⊢
      simpa [visited] using visited_of_hit_none n l hn
    · rw [walk_cons_of_ok ok h] at hn
      simp at hn

theorem visited_length :
    ∀ (n : ℕ) (l : List α),
      (walk ok n l).visited.length = min n (min l.length (l.findIdx ok + 1))
  | 0, l => by simp [visited]
  | n + 1, [] => by simp [visited]
  | n + 1, a :: l => by
    rcases h : ok a with _ | _
    · have ih := visited_length n l
      rw [walk_cons_of_not ok h, List.findIdx_cons, h]
      simp only [visited, List.cons_append, List.length_cons, cond_false] at ih ⊢
      omega
    · rw [walk_cons_of_ok ok h, List.findIdx_cons, h]
      simp [visited]

theorem hit_isSome_iff :
    ∀ (n : ℕ) (l : List α), (walk ok n l).hit.isSome = true ↔ l.findIdx ok < min n l.length
  | 0, l => by simp
  | n + 1, [] => by simp
  | n + 1, a :: l => by
    rcases h : ok a with _ | _
    · rw [walk_cons_of_not ok h, List.findIdx_cons, h, hit_isSome_iff n l]
      simp only [cond_false, List.length_cons]
      omega
    · rw [walk_cons_of_ok ok h, List.findIdx_cons, h]
      simp

/-- A walk whose budget reaches the first element it accepts, or the end, finds that element and
leaves all others. -/
theorem hit_left_of_reaches :
    ∀ (n : ℕ) (l : List α), min l.length (l.findIdx ok + 1) ≤ n →
      (walk ok n l).hit = l.find? ok ∧ (walk ok n l).left = l.eraseP ok
  | n, [], _ => by simp [left]
  | 0, a :: l, hn => by
    simp only [List.length_cons] at hn
    omega
  | n + 1, a :: l, hn => by
    rcases h : ok a with _ | _
    · rw [List.findIdx_cons, h] at hn
      simp only [List.length_cons, cond_false] at hn
      obtain ⟨hhit, hleft⟩ := hit_left_of_reaches n l (by omega)
      rw [walk_cons_of_not ok h, List.find?_cons_of_neg (by simp [h]),
        List.eraseP_cons_of_neg (by simp [h])]
      simp only [left, List.cons_append] at hleft ⊢
      exact ⟨hhit, congrArg _ hleft⟩
    · rw [walk_cons_of_ok ok h, List.find?_cons_of_pos h, List.eraseP_cons_of_pos h]
      simp [left]

theorem hit_eq_find? :
    ∀ (n : ℕ) (l : List α), (walk ok n l).hit = (l.take n).find? ok
  | 0, l => by simp
  | n + 1, [] => by simp
  | n + 1, a :: l => by
    rw [List.take_succ_cons]
    rcases h : ok a with _ | _
    · rw [walk_cons_of_not ok h, List.find?_cons_of_neg (by simp [h])]
      exact hit_eq_find? n l
    · rw [walk_cons_of_ok ok h, List.find?_cons_of_pos h]

/-- A walk on with what one walk left of its budget is one walk over both lists. -/
theorem hit_append_eq_none_iff (n : ℕ) (l₁ l₂ : List α) :
    (walk ok n (l₁ ++ l₂)).hit = none
      ↔ (walk ok n l₁).hit = none ∧ (walk ok (n - l₁.length) l₂).hit = none := by
  simp only [hit_eq_none_iff, List.take_append, List.mem_append]
  constructor
  · intro h
    exact ⟨fun a ha => h a (Or.inl ha), fun a ha => h a (Or.inr ha)⟩
  · rintro ⟨h₁, h₂⟩ a (ha | ha)
    · exact h₁ a ha
    · exact h₂ a ha

end Scan
