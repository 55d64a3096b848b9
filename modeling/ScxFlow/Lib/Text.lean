import Mathlib.Data.List.DropRight
import Mathlib.Data.List.Destutter
import Mathlib.Data.List.Sort

/-!
# Reading lists of text

Trimming, splitting once at a separator, and the sorted list without repeats that a reader of a set
ends with, over any alphabet.
-/

namespace Text

variable {α : Type*}

section Trimming

/-- The text without the characters `p` accepts at either end. -/
def trim (p : α → Bool) (s : List α) : List α := (s.dropWhile p).rdropWhile p

/-- The text is `core` with characters `p` accepts on either side. -/
def Padded (p : α → Bool) (s core : List α) : Prop :=
  ∃ l r, (∀ c ∈ l, p c = true) ∧ (∀ c ∈ r, p c = true) ∧ s = l ++ core ++ r

/-- The text begins and ends with a character `p` refuses. -/
structure Solid (p : α → Bool) (core : List α) : Prop where
  first : ∃ a m, core = a :: m ∧ p a = false
  last : ∃ m z, core = m ++ [z] ∧ p z = false

variable {p : α → Bool} {s core : List α}

theorem Solid.of_forall (hne : core ≠ []) (h : ∀ c ∈ core, p c = false) : Solid p core where
  first := by
    obtain ⟨a, m, rfl⟩ := List.exists_cons_of_ne_nil hne
    exact ⟨a, m, rfl, h a List.mem_cons_self⟩
  last := ⟨core.dropLast, core.getLast hne, (List.dropLast_concat_getLast hne).symm,
    h _ (List.getLast_mem hne)⟩

/-- A text that begins as one solid text and ends as another is solid. -/
theorem Solid.join {core' : List α} (h : Solid p core) (h' : Solid p core') (mid : List α) :
    Solid p (core ++ mid ++ core') where
  first := by
    obtain ⟨a, m, rfl, ha⟩ := h.first
    exact ⟨a, m ++ mid ++ core', by simp, ha⟩
  last := by
    obtain ⟨m, z, rfl, hz⟩ := h'.last
    exact ⟨core ++ mid ++ m, z, by simp, hz⟩

theorem padded_trim (p : α → Bool) (s : List α) : Padded p s (trim p s) := by
  refine ⟨s.takeWhile p, (s.dropWhile p).rtakeWhile p, fun c => List.mem_takeWhile_imp,
    fun c hc => List.mem_rtakeWhile_imp hc, ?_⟩
  rw [List.append_assoc, trim, List.rdropWhile_append_rtakeWhile, List.takeWhile_append_dropWhile]

/-- Trimming removes the padding of a solid text and no more. -/
theorem trim_eq_of_padded (h : Padded p s core) (hc : Solid p core) : trim p s = core := by
  obtain ⟨l, r, hl, hr, rfl⟩ := h
  obtain ⟨a, m, hfirst, ha⟩ := hc.first
  obtain ⟨m', z, hlast, hz⟩ := hc.last
  have hleft : (l ++ core ++ r).dropWhile p = core ++ r := by
    rw [List.append_assoc, List.dropWhile_append_of_pos hl, hfirst, List.cons_append,
      List.dropWhile_cons_of_neg (by simp [ha])]
  unfold trim
  rw [hleft]
  clear hleft hfirst
  induction r using List.reverseRecOn with
  | nil => rw [List.append_nil, hlast, List.rdropWhile_concat_neg _ _ _ (by simp [hz])]
  | append_singleton r c ih =>
    rw [← List.append_assoc, List.rdropWhile_concat_pos _ _ _ (hr c (by simp))]
    exact ih fun c hc => hr c (List.mem_append_left _ hc)

theorem Padded.append_left {l : List α} (hl : ∀ c ∈ l, p c = true) (h : Padded p s core) :
    Padded p (l ++ s) core := by
  obtain ⟨l', r, hl', hr, rfl⟩ := h
  refine ⟨l ++ l', r, fun c hc => ?_, hr, by simp⟩
  exact (List.mem_append.mp hc).elim (hl c) (hl' c)

theorem Padded.append_right {r : List α} (hr : ∀ c ∈ r, p c = true) (h : Padded p s core) :
    Padded p (s ++ r) core := by
  obtain ⟨l, r', hl, hr', rfl⟩ := h
  refine ⟨l, r' ++ r, hl, fun c hc => ?_, by simp⟩
  exact (List.mem_append.mp hc).elim (hr' c) (hr c)

end Trimming

section Split
variable [DecidableEq α] {sep : α}

/-- The text before and after the first separator. -/
def splitOnce (sep : α) : List α → Option (List α × List α)
  | [] => none
  | c :: s => if c = sep then some ([], s) else (splitOnce sep s).map fun ab => (c :: ab.1, ab.2)

theorem splitOnce_append {b : List α} :
    ∀ {a : List α}, sep ∉ a → splitOnce sep (a ++ sep :: b) = some (a, b)
  | [], _ => by simp [splitOnce]
  | c :: a, h => by
    have hc : c ≠ sep := fun he => h (he ▸ List.mem_cons_self)
    rw [List.cons_append, splitOnce, if_neg hc,
      splitOnce_append fun ha => h (List.mem_cons_of_mem _ ha)]
    rfl

theorem parts_of_splitOnce : ∀ {s a b : List α}, splitOnce sep s = some (a, b) →
    s = a ++ sep :: b ∧ sep ∉ a
  | [], _, _, h => absurd h.symm (Option.some_ne_none _)
  | c :: s, a, b, h => by
    rw [splitOnce] at h
    split_ifs at h with hc
    · obtain ⟨rfl, rfl⟩ := Prod.ext_iff.mp (Option.some.inj h)
      exact ⟨by rw [hc]; rfl, List.not_mem_nil⟩
    · obtain ⟨⟨a', b'⟩, hab, he⟩ := Option.map_eq_some_iff.mp h
      obtain ⟨rfl, rfl⟩ := Prod.ext_iff.mp he
      obtain ⟨rfl, hno⟩ := parts_of_splitOnce hab
      refine ⟨rfl, fun hmem => ?_⟩
      rcases List.mem_cons.mp hmem with he | hmem
      · exact hc he.symm
      · exact hno hmem

/-- The pieces of a split hold no separator. -/
theorem notMem_of_mem_splitOn : ∀ {s piece : List α}, piece ∈ s.splitOn sep → sep ∉ piece
  | [], piece, h => by
    rw [List.splitOn_nil, List.mem_singleton] at h
    exact h ▸ List.not_mem_nil
  | c :: s, piece, h => by
    obtain ⟨first, rest, hs⟩ := List.exists_cons_of_ne_nil (List.splitOn_ne_nil sep s)
    have ih {q : List α} (hq : q ∈ first :: rest) : sep ∉ q := notMem_of_mem_splitOn (hs ▸ hq)
    rw [List.splitOn_cons_eq_if_modifyHead, hs] at h
    split_ifs at h with hc
    · rcases List.mem_cons.mp h with rfl | hmem
      · exact List.not_mem_nil
      · exact ih hmem
    · rcases List.mem_cons.mp h with rfl | hmem
      · rw [List.mem_cons, not_or]
        exact ⟨fun he => hc (by simp [he]), ih List.mem_cons_self⟩
      · exact ih (List.mem_cons_of_mem _ hmem)

end Split

section Sorted

/-- The sorted list of the elements, each run of equal ones cut to one. -/
def sortDedup (l : List ℕ) : List ℕ := (l.mergeSort (· ≤ ·)).destutter (· ≠ ·)

theorem mem_destutter'_ne {x : ℕ} : ∀ {l : List ℕ} {a : ℕ},
    x ∈ l.destutter' (· ≠ ·) a ↔ x = a ∨ x ∈ l
  | [], a => by simp
  | b :: l, a => by
    by_cases h : a = b
    · rw [List.destutter'_cons_neg _ (not_not.mpr h), mem_destutter'_ne, h]
      simp
    · rw [List.destutter'_cons_pos _ h, List.mem_cons, mem_destutter'_ne, List.mem_cons]

theorem mem_sortDedup {x : ℕ} {l : List ℕ} : x ∈ sortDedup l ↔ x ∈ l := by
  have hdestutter : ∀ l : List ℕ, x ∈ l.destutter (· ≠ ·) ↔ x ∈ l
    | [] => Iff.rfl
    | a :: l => by rw [List.destutter_cons', mem_destutter'_ne, List.mem_cons]
  rw [sortDedup, hdestutter, List.mem_mergeSort]

/-- A sorted list whose neighbours differ is strictly increasing. -/
theorem isChain_lt : ∀ {l : List ℕ}, l.IsChain (· ≠ ·) → l.Pairwise (· ≤ ·) → l.IsChain (· < ·)
  | [], _, _ => List.isChain_nil
  | [a], _, _ => List.isChain_singleton a
  | a :: b :: l, hne, hle => by
    rw [List.isChain_cons_cons] at hne ⊢
    have hab := (List.pairwise_cons.mp hle).1 b List.mem_cons_self
    exact ⟨lt_of_le_of_ne hab hne.1, isChain_lt hne.2 (List.pairwise_cons.mp hle).2⟩

/-- It is strictly increasing. -/
theorem pairwise_sortDedup (l : List ℕ) : (sortDedup l).Pairwise (· < ·) := by
  have hle : (l.mergeSort (· ≤ ·)).Pairwise (· ≤ ·) := by
    have htrans : ∀ a b c : ℕ, decide (a ≤ b) = true → decide (b ≤ c) = true →
        decide (a ≤ c) = true := by
      simp only [decide_eq_true_eq]
      exact fun a b c => le_trans
    have htotal : ∀ a b : ℕ, (decide (a ≤ b) || decide (b ≤ a)) = true := by
      simp only [Bool.or_eq_true, decide_eq_true_eq]
      exact le_total
    exact (List.pairwise_mergeSort htrans htotal l).imp of_decide_eq_true
  have hsub : (sortDedup l).Pairwise (· ≤ ·) := hle.sublist (List.destutter_sublist _ _)
  have hne : (sortDedup l).IsChain (· ≠ ·) := List.isChain_destutter _ _
  exact List.isChain_iff_pairwise.mp (isChain_lt hne hsub)

end Sorted

end Text
