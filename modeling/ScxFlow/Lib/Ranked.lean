import Mathlib.Data.List.Basic
import Mathlib.Order.Nat

/-!
# Queues kept by rank

A queue that puts a newcomer behind everything it is not before.  Where the order is that of a rank
the queue stays sorted, whatever is taken out of it; what waits at a place moves back only for a
newcomer it is behind, and moves up with every departure from in front of it.
-/

namespace Ranked

variable {α : Type*} (before : α → α → Bool)

/-- Behind every element the newcomer is not before. -/
def place (x : α) : List α → List α
  | [] => [x]
  | y :: l => if before x y then x :: y :: l else y :: place x l

def Sorted (l : List α) : Prop := l.Pairwise fun a b => before b a = false

/-- The order is that of `rank` on these elements. -/
def ByRank (rank : α → ℕ) (l : List α) : Prop :=
  ∀ a ∈ l, ∀ b ∈ l, before a b = true ↔ rank a < rank b

/-- How many elements stand up to the last one `P` accepts. -/
def wait (P : α → Bool) : List α → ℕ
  | [] => 0
  | a :: l => if P a || wait P l != 0 then wait P l + 1 else 0

theorem place_split (x : α) : ∀ l : List α, ∃ pre post, l = pre ++ post
    ∧ place before x l = pre ++ x :: post ∧ (∀ y ∈ pre, before x y = false)
    ∧ ∀ y ∈ post.head?, before x y = true
  | [] => ⟨[], [], rfl, rfl, by simp, by simp⟩
  | y :: l => by
    by_cases h : before x y = true
    · refine ⟨[], y :: l, rfl, by simp [place, h], by simp, ?_⟩
      intro z hz
      obtain rfl : y = z := by simpa using hz
      exact h
    · obtain ⟨pre, post, hl, hp, hpre, hpost⟩ := place_split x l
      refine ⟨y :: pre, post, by rw [hl, List.cons_append], ?_, ?_, hpost⟩
      · rw [place, if_neg h, hp, List.cons_append]
      · rintro z (_ | ⟨_, hz⟩)
        · exact Bool.eq_false_iff.mpr h
        · exact hpre z hz

variable {before} {P : α → Bool} {rank : α → ℕ}

section Order

theorem Sorted.sublist {l l' : List α} (h : Sorted before l) (hs : l'.Sublist l) :
    Sorted before l' := List.Pairwise.sublist hs h

theorem ByRank.subset {l l' : List α} (h : ByRank before rank l) (hs : l' ⊆ l) :
    ByRank before rank l' := fun a ha b hb => h a (hs ha) b (hs hb)

/-- In a sorted queue nothing behind an element has a smaller rank. -/
theorem Sorted.rank_le {pre post : List α} {y : α} (h : Sorted before (pre ++ y :: post))
    (hr : ByRank before rank (pre ++ y :: post)) : ∀ z ∈ post, rank y ≤ rank z := by
  intro z hz
  have hzy : before z y = false :=
    (List.pairwise_cons.mp (List.pairwise_append.mp h).2.1).1 z hz
  by_contra hlt
  rw [(hr z (by simp [hz]) y (by simp)).mpr (by omega)] at hzy
  exact absurd hzy (by simp)

/-- What stands behind the newcomer is after it. -/
theorem before_of_mem_post {x : α} {pre post : List α} (hs : Sorted before (pre ++ post))
    (hr : ByRank before rank (x :: (pre ++ post)))
    (hpost : ∀ y ∈ post.head?, before x y = true) : ∀ z ∈ post, rank x < rank z := by
  cases post with
  | nil => exact fun z hz => absurd hz List.not_mem_nil
  | cons y post =>
    have hxy : rank x < rank y := (hr x (by simp) y (by simp)).mp (hpost y (by simp))
    have hle := hs.rank_le (hr.subset (List.subset_cons_self ..))
    rintro z (_ | ⟨_, hz⟩)
    · exact hxy
    · exact hxy.trans_le (hle z hz)

theorem Sorted.place {x : α} {l : List α} (h : Sorted before l)
    (hr : ByRank before rank (x :: l)) : Sorted before (place before x l) := by
  obtain ⟨pre, post, rfl, hp, hpre, hpost⟩ := place_split before x l
  have hlt := before_of_mem_post h hr hpost
  obtain ⟨hsp, hsq, hcross⟩ := List.pairwise_append.mp h
  rw [hp]
  refine List.pairwise_append.mpr ⟨hsp, List.pairwise_cons.mpr ⟨fun z hz => ?_, hsq⟩, ?_⟩
  · rw [← Bool.not_eq_true, hr z (by simp [hz]) x (by simp)]
    exact Nat.not_lt.mpr (hlt z hz).le
  · rintro y hy z (_ | ⟨_, hz⟩)
    · exact hpre y hy
    · exact hcross y hy z hz

theorem mem_place {x y : α} {l : List α} : y ∈ place before x l ↔ y = x ∨ y ∈ l := by
  obtain ⟨pre, post, rfl, hp, -⟩ := place_split before x l
  rw [hp]
  simp only [List.mem_append, List.mem_cons]
  tauto

end Order

section Waiting

@[simp] theorem wait_nil : wait P [] = 0 := rfl

theorem wait_cons (a : α) (l : List α) :
    wait P (a :: l) = if P a || wait P l != 0 then wait P l + 1 else 0 := rfl

theorem wait_eq_zero {l : List α} : wait P l = 0 ↔ ∀ a ∈ l, P a = false := by
  induction l with
  | nil => simp
  | cons a l ih =>
    rw [wait_cons, List.forall_mem_cons, ← ih]
    by_cases ha : P a = true
    · simp [ha]
    · simp [ha]

theorem wait_le_length (l : List α) : wait P l ≤ l.length := by
  induction l with
  | nil => exact le_rfl
  | cons a l ih =>
    rw [wait_cons, List.length_cons]
    split
    · omega
    · omega

theorem wait_append (pre post : List α) :
    wait P (pre ++ post) = if wait P post = 0 then wait P pre else pre.length + wait P post := by
  induction pre with
  | nil => simp
  | cons a pre ih =>
    rw [List.cons_append, wait_cons, wait_cons, ih, List.length_cons]
    by_cases hp : wait P post = 0
    · simp [hp]
    · have hpos : (pre.length + wait P post != 0) = true := by
        rw [bne_iff_ne]
        omega
      simp only [hp, ↓reduceIte, hpos, Bool.or_true]
      omega

/-- What waits within a budget of places is met by it. -/
theorem exists_mem_take {n : ℕ} {l : List α} (h : wait P l ≠ 0) (hn : wait P l ≤ n) :
    ∃ a ∈ l.take n, P a = true := by
  by_contra hnone
  have hpre : wait P (l.take n) = 0 := wait_eq_zero.mpr fun a ha => by
    rw [← Bool.not_eq_true]
    exact fun hP => hnone ⟨a, ha, hP⟩
  have hsplit := wait_append (P := P) (l.take n) (l.drop n)
  rw [List.take_append_drop, hpre] at hsplit
  split at hsplit
  · exact h hsplit
  · rename_i hpost
    have hlen := wait_le_length (P := P) (l.drop n)
    rw [List.length_drop] at hlen
    rw [List.length_take] at hsplit
    omega

/-- Departures only move a waiter up. -/
theorem wait_sublist {l l' : List α} (h : l'.Sublist l) : wait P l' ≤ wait P l := by
  induction h with
  | slnil => exact le_rfl
  | cons a _ ih =>
    rw [wait_cons]
    split
    · omega
    · rename_i hno
      simp only [Bool.or_eq_true, bne_iff_ne, ne_eq, not_or, not_not] at hno
      omega
  | cons_cons a _ ih =>
    rw [wait_cons, wait_cons]
    split
    · split
      · omega
      · rename_i hyes hno
        simp only [Bool.or_eq_true, bne_iff_ne, ne_eq] at hyes hno
        rcases hyes with hyes | hyes
        · exact absurd (Or.inl hyes) hno
        · exact absurd (Or.inr (by omega)) hno
    · exact Nat.zero_le _

/-- A departure from in front of a waiter, or its own, moves it up by one. -/
theorem wait_remove {pre post : List α} {x : α} (hpre : ∀ a ∈ pre, P a = false)
    (h : wait P (x :: post) ≠ 0) : wait P (pre ++ post) + 1 ≤ wait P (pre ++ x :: post) := by
  have hzero : wait P pre = 0 := wait_eq_zero.mpr hpre
  have hcons := wait_cons (P := P) x post
  rw [wait_append, wait_append, if_neg h, hzero]
  split at hcons
  · split
    · omega
    · omega
  · exact absurd hcons h

/-- A newcomer moves a waiter back by one at most, and not at all where it is before none. -/
theorem wait_place {x : α} {l : List α} (hx : P x = false) (hs : Sorted before l)
    (hr : ByRank before rank (x :: l)) : wait P (place before x l)
      ≤ wait P l + if l.any fun y => P y && before x y then 1 else 0 := by
  obtain ⟨pre, post, rfl, hp, hpre, hpost⟩ := place_split before x l
  have hlt := before_of_mem_post hs hr hpost
  rw [hp, wait_append, wait_append, wait_cons, hx, Bool.false_or]
  by_cases hz : wait P post = 0
  · simp [hz]
  · obtain ⟨y, hy, hPy⟩ : ∃ y ∈ post, P y = true := by
      by_contra hno
      refine hz (wait_eq_zero.mpr fun a ha => ?_)
      rw [← Bool.not_eq_true]
      exact fun hPa => hno ⟨a, ha, hPa⟩
    have hany : ((pre ++ post).any fun y => P y && before x y) = true := by
      rw [List.any_eq_true]
      refine ⟨y, by simp [hy], ?_⟩
      rw [hPy, Bool.true_and, hr x (by simp) y (by simp [hy])]
      exact hlt y hy
    have hbehind : (wait P post != 0) = true := bne_iff_ne.mpr hz
    rw [hany, hbehind, if_pos rfl, if_neg (Nat.succ_ne_zero _), if_neg hz, if_pos rfl]
    omega

end Waiting

end Ranked
