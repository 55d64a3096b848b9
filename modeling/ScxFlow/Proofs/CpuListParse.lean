import ScxFlow.CpuList

/-!
# What a CPU list denotes

The grammar of a CPU list stands on its own: a number, its padding, and an item that is a number or
a range.  `parse_cpu_list` returns the ids below the bound that the items of its string denote, in
increasing order, so any rendering of a set of such ids reads back as the set.
-/

namespace ScxFlow

section Grammar

/-- A number as the `u32` parser takes it: digits with a plus sign or none, below `2 ^ 32`. -/
def IsNumber (s : List Char) (n : ℕ) : Prop :=
  ∃ digits, (s = digits ∨ s = '+' :: digits) ∧ digits ≠ [] ∧ (∀ c ∈ digits, c.isDigit = true)
    ∧ Nat.ofDigitChars 10 digits 0 = n ∧ n < 2 ^ 32

/-- A number within white space. -/
def NumberIn (s : List Char) (n : ℕ) : Prop :=
  ∃ txt, Text.Padded isWhiteSpace s txt ∧ IsNumber txt n

/-- What an item stands for: one id, or every id from `lo` to `hi`. -/
inductive CpuItem
  | single (n : ℕ)
  | range (lo hi : ℕ)

def CpuItem.Has : CpuItem → ℕ → Prop
  | single n, id => id = n
  | range lo hi, id => lo ≤ id ∧ id ≤ hi

/-- The text writes the item: a number, or two numbers with a dash between, each within white
space. -/
def Writes (txt : List Char) : CpuItem → Prop
  | .single n => NumberIn txt n
  | .range lo hi => ∃ a b, txt = a ++ '-' :: b ∧ NumberIn a lo ∧ NumberIn b hi

/-- A text denotes the ids of the item it writes, and none where it writes no item. -/
def Denotes (txt : List Char) (id : ℕ) : Prop := ∃ item, Writes txt item ∧ item.Has id

/-- The plain decimal rendering of an item. -/
def CpuItem.render : CpuItem → List Char
  | single n => Nat.toDigits 10 n
  | range lo hi => Nat.toDigits 10 lo ++ '-' :: Nat.toDigits 10 hi

/-- The items with a comma between each two. -/
def joinItems (items : List (List Char)) : String := String.ofList ([','].intercalate items)

end Grammar

section Numbers

theorem le_ofDigitChars : ∀ (s : List Char) (acc : ℕ), acc ≤ Nat.ofDigitChars 10 s acc
  | [], acc => by simp
  | c :: s, acc => by
    rw [Nat.ofDigitChars_cons]
    exact le_trans (by omega) (le_ofDigitChars s _)

theorem parseDigits_iff {n : ℕ} : ∀ {s : List Char} {acc : ℕ}, acc < 2 ^ 32 →
    (parseDigits acc s = some n
      ↔ (∀ c ∈ s, c.isDigit = true) ∧ Nat.ofDigitChars 10 s acc = n ∧ n < 2 ^ 32)
  | [], acc, hacc => by
    simp only [parseDigits, Option.some.injEq, List.not_mem_nil, false_implies, implies_true,
      Nat.ofDigitChars_nil, true_and]
    exact ⟨fun h => ⟨h, h ▸ hacc⟩, fun h => h.1⟩
  | c :: s, acc, hacc => by
    have hzero : '0'.toNat = 48 := rfl
    rw [parseDigits, Nat.ofDigitChars_cons, hzero, List.forall_mem_cons]
    by_cases hdigit : c.isDigit = true
    · rw [if_pos hdigit]
      simp only
      by_cases hv : 10 * acc + (c.toNat - 48) < 2 ^ 32
      · rw [if_pos hv, parseDigits_iff hv]
        simp [hdigit]
      · have hle := le_ofDigitChars s (10 * acc + (c.toNat - 48))
        rw [if_neg hv]
        refine iff_of_false (Option.some_ne_none _).symm fun h => ?_
        omega
    · rw [if_neg hdigit]
      exact iff_of_false (Option.some_ne_none _).symm fun h => hdigit h.1.1

theorem stripPlus_of_ne : ∀ {s : List Char}, (∀ r, s ≠ '+' :: r) → stripPlus s = s
  | [], _ => rfl
  | c :: s, h => by
    unfold stripPlus
    split
    · rename_i r heq
      exact absurd heq (h r)
    · rfl

theorem parseU32_iff {s : List Char} {n : ℕ} : parseU32 s = some n ↔ IsNumber s n := by
  have hplus : Char.isDigit '+' = false := by decide
  have hdigits (d : List Char) : (if d = [] then none else parseDigits 0 d) = some n
      ↔ d ≠ [] ∧ (∀ c ∈ d, c.isDigit = true) ∧ Nat.ofDigitChars 10 d 0 = n ∧ n < 2 ^ 32 := by
    split_ifs with hd
    · simp [hd]
    · rw [parseDigits_iff (by decide)]
      simp [hd]
  unfold parseU32
  simp only
  rw [hdigits]
  by_cases hs : ∃ r, s = '+' :: r
  · obtain ⟨r, rfl⟩ := hs
    constructor
    · intro h
      exact ⟨r, Or.inr rfl, h⟩
    · rintro ⟨d, rfl | h, hne, hall, hval⟩
      · exact absurd (hplus.symm.trans (hall '+' List.mem_cons_self)) Bool.false_ne_true
      · obtain rfl := (List.cons.inj h).2
        exact ⟨hne, hall, hval⟩
  · rw [stripPlus_of_ne fun r h => hs ⟨r, h⟩]
    constructor
    · intro h
      exact ⟨s, Or.inl rfl, h⟩
    · rintro ⟨d, rfl | h, hrest⟩
      · exact hrest
      · exact absurd ⟨d, h⟩ hs

theorem IsNumber.unique {s : List Char} {n m : ℕ} (h : IsNumber s n) (h' : IsNumber s m) :
    n = m := by
  rw [← parseU32_iff] at h h'
  exact Option.some.inj (h.symm.trans h')

theorem isWhiteSpace_of_isDigit {c : Char} (h : c.isDigit = true) : isWhiteSpace c = false := by
  have hc : 48 ≤ c.toNat ∧ c.toNat ≤ 57 := by
    simpa [Char.isDigit, UInt32.le_iff_toNat_le] using h
  unfold isWhiteSpace
  simp only [decide_eq_false_iff_not]
  omega

/-- The characters of a number are digits or a plus sign. -/
theorem IsNumber.mem {s : List Char} {n : ℕ} (h : IsNumber s n) {c : Char} (hc : c ∈ s) :
    c.isDigit = true ∨ c = '+' := by
  obtain ⟨d, rfl | rfl, -, hall, -⟩ := h
  · exact Or.inl (hall c hc)
  · rcases List.mem_cons.mp hc with rfl | hmem
    · exact Or.inr rfl
    · exact Or.inl (hall c hmem)

theorem IsNumber.solid {s : List Char} {n : ℕ} (h : IsNumber s n) : Text.Solid isWhiteSpace s := by
  refine .of_forall ?_ fun c hc => ?_
  · obtain ⟨d, rfl | rfl, hne, -⟩ := h
    · exact hne
    · exact List.cons_ne_nil _ _
  · rcases h.mem hc with hd | rfl
    · exact isWhiteSpace_of_isDigit hd
    · decide

/-- Trimming and parsing reads the number a text holds within white space. -/
theorem parseU32_trim_iff {s : List Char} {n : ℕ} :
    parseU32 (strTrim s) = some n ↔ NumberIn s n := by
  rw [parseU32_iff]
  constructor
  · exact fun h => ⟨strTrim s, Text.padded_trim isWhiteSpace s, h⟩
  · rintro ⟨txt, hpad, hnum⟩
    rwa [strTrim, Text.trim_eq_of_padded hpad hnum.solid]

/-- A number within white space has no separator. -/
theorem NumberIn.notMem {s : List Char} {n : ℕ} {c : Char} (h : NumberIn s n)
    (hc : c = '-' ∨ c = ',') : c ∉ s := by
  have hnum : ¬c.isDigit = true ∧ c ≠ '+' ∧ ¬isWhiteSpace c = true := by
    rcases hc with rfl | rfl <;> decide
  obtain ⟨txt, ⟨l, r, hl, hr, rfl⟩, htxt⟩ := h
  simp only [List.mem_append, not_or]
  exact ⟨⟨fun hmem => hnum.2.2 (hl c hmem),
    fun hmem => (htxt.mem hmem).elim hnum.1 hnum.2.1⟩, fun hmem => hnum.2.2 (hr c hmem)⟩

end Numbers

section Items

/-- A trimmed text parses as a range exactly when the text writes one. -/
theorem parseRange_trim_iff {s : List Char} {lo hi : ℕ} :
    parseRange (strTrim s) = some (lo, hi) ↔ Writes s (.range lo hi) := by
  constructor
  · intro h
    obtain ⟨l, r, hl, hr, hs⟩ := Text.padded_trim isWhiteSpace s
    unfold parseRange at h
    split at h
    · exact absurd h.symm (Option.some_ne_none _)
    · rename_i a b hsplit
      split at h
      · rename_i lo' hi' hlo hhi
        obtain ⟨rfl, rfl⟩ := Prod.ext_iff.mp (Option.some.inj h)
        obtain ⟨hcut, -⟩ := Text.parts_of_splitOnce hsplit
        obtain ⟨ta, hta, hna⟩ := parseU32_trim_iff.mp hlo
        obtain ⟨tb, htb, hnb⟩ := parseU32_trim_iff.mp hhi
        refine ⟨l ++ a, b ++ r, ?_, ⟨ta, hta.append_left hl, hna⟩, ⟨tb, htb.append_right hr, hnb⟩⟩
        have hs' : s = l ++ strTrim s ++ r := hs
        rw [hcut] at hs'
        rw [hs']
        simp
      · exact absurd h.symm (Option.some_ne_none _)
  · rintro ⟨a, b, rfl, ⟨ta, ⟨la, ra, hla, hra, rfl⟩, hna⟩, ⟨tb, ⟨lb, rb, hlb, hrb, rfl⟩, hnb⟩⟩
    -- the two numbers are the solid ends of what the trim leaves
    have htrim : strTrim (la ++ ta ++ ra ++ '-' :: (lb ++ tb ++ rb))
        = (ta ++ ra) ++ '-' :: (lb ++ tb) := by
      have hsolid := hna.solid.join hnb.solid (ra ++ '-' :: lb)
      rw [strTrim, Text.trim_eq_of_padded ⟨la, rb, hla, hrb, ?_⟩ hsolid]
      · simp
      · simp
    have hlo : NumberIn (ta ++ ra) lo := ⟨ta, ⟨[], ra, by simp, hra, by simp⟩, hna⟩
    have hhi : NumberIn (lb ++ tb) hi := ⟨tb, ⟨lb, [], hlb, by simp, by simp⟩, hnb⟩
    rw [htrim, parseRange, Text.splitOnce_append (hlo.notMem (Or.inl rfl))]
    simp only [parseU32_trim_iff.mpr hlo, parseU32_trim_iff.mpr hhi]

/-- A text writes one item at most. -/
theorem Writes.unique {s : List Char} {item item' : CpuItem} (h : Writes s item)
    (h' : Writes s item') : item = item' := by
  -- a number has no dash, so it is no range
  have hkind {n lo hi : ℕ} (hn : Writes s (.single n)) (hr : Writes s (.range lo hi)) : False := by
    obtain ⟨a, b, rfl, -⟩ := hr
    exact NumberIn.notMem hn (Or.inl rfl) (List.mem_append_right a List.mem_cons_self)
  rcases item with n | ⟨lo, hi⟩ <;> rcases item' with n' | ⟨lo', hi'⟩
  · have he := (parseU32_trim_iff.mpr h).symm.trans (parseU32_trim_iff.mpr h')
    rw [Option.some.inj he]
  · exact (hkind h h').elim
  · exact (hkind h' h).elim
  · have he := (parseRange_trim_iff.mpr h).symm.trans (parseRange_trim_iff.mpr h')
    obtain ⟨rfl, rfl⟩ := Prod.ext_iff.mp (Option.some.inj he)
    rfl

theorem Writes.denotes_iff {s : List Char} {item : CpuItem} {id : ℕ} (h : Writes s item) :
    Denotes s id ↔ item.Has id :=
  ⟨fun ⟨_, hw, hhas⟩ => h.unique hw ▸ hhas, fun hhas => ⟨item, h, hhas⟩⟩

/-- Where a text writes no range, it denotes the number it holds, if any. -/
theorem denotes_iff_of_not_range {s : List Char} {id : ℕ} (h : parseRange (strTrim s) = none) :
    Denotes s id ↔ parseU32 (strTrim s) = some id := by
  rw [parseU32_trim_iff]
  constructor
  · rintro ⟨n | ⟨lo, hi⟩, hw, hhas⟩
    · rw [show id = n from hhas]
      exact hw
    · rw [parseRange_trim_iff.mpr hw] at h
      exact absurd h (Option.some_ne_none _)
  · exact fun hid => ⟨.single id, hid, rfl⟩

/-- An item pushes the ids below the bound that its text denotes. -/
theorem mem_parsePart {s : List Char} {id : ℕ} :
    id ∈ parsePart s ↔ id < cpuBound ∧ Denotes s id := by
  have hbound : cpuBound = 1024 := rfl
  unfold parsePart
  simp only
  by_cases hempty : strTrim s = []
  · have hnone : parseRange (strTrim s) = none := by rw [hempty]; rfl
    have hno : parseU32 (strTrim s) = none := by rw [hempty]; rfl
    rw [if_pos hempty, denotes_iff_of_not_range hnone, hno]
    exact iff_of_false List.not_mem_nil fun h => Option.some_ne_none _ h.2.symm
  · rw [if_neg hempty]
    cases hrange : parseRange (strTrim s) with
    | some ends =>
      obtain ⟨lo, hi⟩ := ends
      rw [(parseRange_trim_iff.mp hrange).denotes_iff]
      simp only [CpuItem.Has]
      by_cases hle : lo ≤ min hi (cpuBound - 1)
      · rw [if_pos hle, List.mem_range'_1]
        omega
      · rw [if_neg hle]
        exact iff_of_false List.not_mem_nil (by omega)
    | none =>
      rw [denotes_iff_of_not_range hrange]
      cases hone : parseU32 (strTrim s) with
      | none => exact iff_of_false List.not_mem_nil fun h => Option.some_ne_none _ h.2.symm
      | some n =>
        rw [Option.some.injEq]
        simp only
        by_cases hlt : n < cpuBound
        · rw [if_pos hlt, List.mem_singleton]
          omega
        · rw [if_neg hlt]
          exact iff_of_false List.not_mem_nil (by omega)

theorem parsePart_nil : parsePart [] = [] := rfl

/-- The list holds exactly the ids below the bound that its items denote. -/
theorem mem_parseCpuList {items : List (List Char)} (hcomma : ∀ item ∈ items, ',' ∉ item) {id : ℕ} :
    id ∈ parseCpuList (joinItems items) ↔ id < cpuBound ∧ ∃ item ∈ items, Denotes item id := by
  have hpush : id ∈ ((joinItems items).toList.splitOn ',').flatMap parsePart
      ↔ ∃ item ∈ items, id ∈ parsePart item := by
    rw [List.mem_flatMap, joinItems, String.toList_ofList]
    by_cases hne : items = []
    · -- the empty string has one item, which is empty
      subst hne
      simp [parsePart_nil]
    · rw [List.splitOn_intercalate ',' hcomma hne]
  unfold parseCpuList
  simp only
  rw [Text.mem_sortDedup, hpush]
  simp only [mem_parsePart]
  exact ⟨fun ⟨item, hmem, hlt, hden⟩ => ⟨hlt, item, hmem, hden⟩,
    fun ⟨hlt, item, hmem, hden⟩ => ⟨item, hmem, hlt, hden⟩⟩

end Items

section Renderings

theorem Writes.comma_notMem {s : List Char} {item : CpuItem} (h : Writes s item) : ',' ∉ s := by
  rcases item with n | ⟨lo, hi⟩
  · exact NumberIn.notMem h (Or.inr rfl)
  · obtain ⟨a, b, rfl, ha, hb⟩ := h
    rw [List.mem_append, List.mem_cons, not_or, not_or]
    exact ⟨ha.notMem (Or.inr rfl), by decide, hb.notMem (Or.inr rfl)⟩

theorem numberIn_toDigits {n : ℕ} (h : n < 2 ^ 32) : NumberIn (Nat.toDigits 10 n) n := by
  refine ⟨Nat.toDigits 10 n, ⟨[], [], by simp, by simp, by simp⟩, ?_⟩
  exact ⟨_, Or.inl rfl, Nat.toDigits_ne_nil,
    fun _ hc => Nat.isDigit_of_mem_toDigits (by decide) (by decide) hc,
    Nat.ofDigitChars_ten_toDigits, h⟩

/-- An item with an id below the bound and no id above it is written by its plain rendering. -/
theorem writes_render {item : CpuItem} (hsome : ∃ id, item.Has id)
    (hlt : ∀ id, item.Has id → id < cpuBound) : Writes item.render item := by
  have hbound : cpuBound < 2 ^ 32 := by decide
  obtain ⟨id, hid⟩ := hsome
  rcases item with n | ⟨lo, hi⟩
  · exact numberIn_toDigits ((hlt n rfl).trans hbound)
  · have hhi : hi < cpuBound := hlt hi ⟨hid.1.trans hid.2, le_rfl⟩
    exact ⟨_, _, rfl, numberIn_toDigits ((hid.1.trans hid.2).trans_lt (hhi.trans hbound)),
      numberIn_toDigits (hhi.trans hbound)⟩

theorem comma_notMem_of_writes {txts : List (List Char)} {items : List CpuItem}
    (hw : List.Forall₂ Writes txts items) : ∀ txt ∈ txts, ',' ∉ txt := by
  induction hw with
  | nil => simp
  | cons h _ ih => exact List.forall_mem_cons.mpr ⟨h.comma_notMem, ih⟩

/-- Texts denote the ids of the items they write. -/
theorem exists_denotes_iff {txts : List (List Char)} {items : List CpuItem} {id : ℕ}
    (hw : List.Forall₂ Writes txts items) :
    (∃ txt ∈ txts, Denotes txt id) ↔ ∃ item ∈ items, item.Has id := by
  induction hw with
  | nil => simp
  | cons h _ ih => rw [List.exists_mem_cons_iff, List.exists_mem_cons_iff, h.denotes_iff, ih]

/-- Texts that write the items of a set of ids read back as the set. -/
theorem parseCpuList_toFinset {S : Finset ℕ} (hS : ∀ id ∈ S, id < cpuBound)
    {txts : List (List Char)} {items : List CpuItem} (hw : List.Forall₂ Writes txts items)
    (hitems : ∀ id, id ∈ S ↔ ∃ item ∈ items, item.Has id) :
    (parseCpuList (joinItems txts)).toFinset = S := by
  ext id
  rw [List.mem_toFinset, mem_parseCpuList (comma_notMem_of_writes hw), exists_denotes_iff hw,
    ← hitems]
  exact ⟨And.right, fun h => ⟨hS id h, h⟩⟩

theorem forall₂_writes_render {items : List CpuItem}
    (h : ∀ item ∈ items, Writes item.render item) :
    List.Forall₂ Writes (items.map CpuItem.render) items := by
  rw [List.forall₂_map_left_iff, List.forall₂_same]
  exact h

/-- Every string is its items with commas between. -/
theorem exists_joinItems (s : String) :
    ∃ items, s = joinItems items ∧ ∀ item ∈ items, ',' ∉ item := by
  refine ⟨s.toList.splitOn ',', ?_, fun item => Text.notMem_of_mem_splitOn⟩
  rw [joinItems, List.intercalate_splitOn, String.ofList_toList]

/-- `parse_cpu_list` returns, in increasing order and once each, exactly the ids below the bound
that the items denote; and the texts of any items, padded, signed or plain, that make up a set of
such ids read back as the set. -/
theorem parseCpuList_reads_back :
    (∀ items : List (List Char), (∀ item ∈ items, ',' ∉ item) →
      (parseCpuList (joinItems items)).Pairwise (· < ·)
        ∧ ∀ id, id ∈ parseCpuList (joinItems items)
          ↔ id < cpuBound ∧ ∃ item ∈ items, Denotes item id)
    ∧ (∀ s : String, ∃ items, s = joinItems items ∧ ∀ item ∈ items, ',' ∉ item)
    ∧ ∀ S : Finset ℕ, (∀ id ∈ S, id < cpuBound) →
      ∀ items : List CpuItem, (∀ id, id ∈ S ↔ ∃ item ∈ items, item.Has id) →
        (∀ txts, List.Forall₂ Writes txts items → (parseCpuList (joinItems txts)).toFinset = S)
        ∧ ((∀ item ∈ items, ∃ id, item.Has id) →
          (parseCpuList (joinItems (items.map CpuItem.render))).toFinset = S) := by
  refine ⟨fun items hcomma => ⟨Text.pairwise_sortDedup _, fun id => mem_parseCpuList hcomma⟩,
    exists_joinItems, fun S hS items hitems => ⟨fun txts hw => parseCpuList_toFinset hS hw hitems,
    fun hsome => ?_⟩⟩
  refine parseCpuList_toFinset hS (forall₂_writes_render fun item hmem => ?_) hitems
  exact writes_render (hsome item hmem) fun id hid => hS id ((hitems id).mpr ⟨item, hmem, hid⟩)

/-- A range behind a space and a signed number before a newline are the set of five ids. -/
theorem parseCpuList_reads_back_five :
    (parseCpuList (joinItems [[' ', '0', '-', '3'], ['+', '5', '\n']])).toFinset
      = {0, 1, 2, 3, 5} := by
  have hpad {s core : List Char} {n : ℕ} (h : Text.trim isWhiteSpace s = core)
      (hn : parseU32 core = some n) : NumberIn s n := by
    rw [← parseU32_trim_iff, strTrim, h]
    exact hn
  refine ((parseCpuList_reads_back.2.2 {0, 1, 2, 3, 5} (by decide) [.range 0 3, .single 5] ?_).1 _
    (.cons ⟨[' ', '0'], ['3'], rfl, hpad rfl rfl, hpad rfl rfl⟩ (.cons (hpad rfl rfl) .nil)))
  intro id
  simp only [Finset.mem_insert, Finset.mem_singleton, List.exists_mem_cons_iff, List.not_mem_nil,
    false_and, exists_false, or_false, CpuItem.Has]
  omega

end Renderings

end ScxFlow
