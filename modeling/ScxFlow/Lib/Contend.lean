import ScxFlow.Lib.Cell

/-!
# Calls that lose their swaps

A swap is lost only to one that took after its read.  So a call that gives up either had nothing to
offer for the value the cell then held, or ran into as many swaps as it has tries (`gave_cases`).
-/

namespace Cell

variable {ι κ V : Type*} [DecidableEq ι] {O : CellOps κ V}

/-- How many swaps took since the last call of the party. -/
def tookSince (i : ι) (log : List (Event ι κ V)) : ℕ :=
  log.foldl (fun n e => match e with
    | .called j _ => if j = i then 0 else n
    | .took _ _ _ _ => n + 1
    | .gave _ _ => n) 0

@[simp] theorem tookSince_nil (i : ι) : tookSince i ([] : List (Event ι κ V)) = 0 := rfl

theorem tookSince_append_called (i j : ι) (c : κ) (log : List (Event ι κ V)) :
    tookSince i (log ++ [.called j c]) = if j = i then 0 else tookSince i log := by
  simp [tookSince]

theorem tookSince_append_took (i j : ι) (c : κ) (old new : V) (log : List (Event ι κ V)) :
    tookSince i (log ++ [.took j c old new]) = tookSince i log + 1 := by
  simp [tookSince]

theorem tookSince_append_gave (i j : ι) (c : κ) (log : List (Event ι κ V)) :
    tookSince i (log ++ [.gave j c]) = tookSince i log := by
  simp [tookSince]

/-- What a call has behind it once `n` swaps took since it started: every try spent is paid for by
one of them, and so is a try about to be. -/
def Paid (v : V) (n : ℕ) : Phase O → Prop
  | .idle => True
  | .reading c left => O.tries c ≤ n + left + 1
  | .swapping c left seen _ _ => O.tries c ≤ n + left + 1 ∧ (v ≠ seen → O.tries c ≤ n + left)

/-- One more swap pays for one more try, whatever it leaves in the cell. -/
theorem Paid.took {v new : V} {n : ℕ} {ph : Phase O} (h : Paid v n ph) : Paid new (n + 1) ph := by
  cases ph with
  | idle => trivial
  | reading c left =>
    have hle : O.tries c ≤ n + left + 1 := h
    show O.tries c ≤ n + 1 + left + 1
    omega
  | swapping c left seen next ho =>
    obtain ⟨hle, -⟩ := h
    exact ⟨by omega, fun _ => by omega⟩

theorem Paid.retry {v : V} {n : ℕ} {c : κ} {left : ℕ} (h : O.tries c ≤ n + left) :
    Paid v n (Phase.retry O c left) := by
  cases left with
  | zero => trivial
  | succ left => exact h

variable [DecidableEq V]

/-- A step keeps every call paid for. -/
theorem step_paid {s : State ι O} {log : List (Event ι κ V)} (l : Label ι κ)
    (h : ∀ i, Paid s.cell (tookSince i log) (s.phase i)) :
    ∀ i, Paid (next O s l).1.cell (tookSince i (log ++ (next O s l).2)) ((next O s l).1.phase i) := by
  have hput {j : ι} {ph : Phase O} {n : ι → ℕ} (hj : Paid s.cell (n j) ph)
      (hn : ∀ i, i ≠ j → Paid s.cell (n i) (s.phase i)) :
      ∀ i, Paid (s.put j ph).cell (n i) ((s.put j ph).phase i) := by
    intro i
    by_cases hi : i = j
    · subst hi
      simpa [State.put] using hj
    · simpa [State.put, hi] using hn i hi
  cases l with
  | call j c =>
    unfold next
    simp only
    split
    · refine hput (Paid.retry (Nat.le_add_left _ _)) fun i hi => ?_
      have hkeep : tookSince i (log ++ .called j c :: if O.tries c = 0 then [.gave j c] else [])
          = tookSince i log := by
        rw [List.append_cons]
        split
        · rw [tookSince_append_gave, tookSince_append_called, if_neg (Ne.symm hi)]
        · rw [List.append_nil, tookSince_append_called, if_neg (Ne.symm hi)]
      rw [hkeep]
      exact h i
    · rw [List.append_nil]
      exact h
  | tick j =>
    unfold next
    simp only
    split
    · rw [List.append_nil]
      exact h
    · rename_i c left hph
      have hj := h j
      rw [hph] at hj
      split
      · simp only [tookSince_append_gave]
        exact hput trivial fun i _ => h i
      · rw [List.append_nil]
        exact hput ⟨hj, fun hne => absurd rfl hne⟩ fun i _ => h i
    · rename_i c left seen new ho hph
      have hj := h j
      rw [hph] at hj
      split
      · intro i
        rw [tookSince_append_took]
        by_cases hi : i = j
        · subst hi
          simp [State.put, Paid]
        · simpa [State.put, hi] using (h i).took
      · rename_i hne
        have hkeep (i : ι) : tookSince i (log ++ if left = 0 then [.gave j c] else [])
            = tookSince i log := by
          split
          · exact tookSince_append_gave i j c log
          · rw [List.append_nil]
        simp only [hkeep]
        exact hput (Paid.retry (hj.2 hne)) fun i _ => h i

theorem run_paid (v : V) (ls : List (Label ι κ)) : ∀ i,
    Paid ((machine O).exec (start O ι v) ls).cell
      (tookSince i ((machine O).log (start O ι v) ls))
      (((machine O).exec (start O ι v) ls).phase i) := by
  have hrun := (machine O).invariant (P := fun _ _ => True)
    (I := fun s log => ∀ i, Paid s.cell (tookSince i log) (s.phase i))
    (fun _ l _ _ hi => step_paid l hi) ls (s := start O ι v) (h := [])
    ((machine O).along_of_forall (by simp) _ ls) fun _ => trivial
  simpa using hrun

/-- A call that ends without a swap was under way with nothing to offer for what the cell held, or as
many swaps as it has tries took since it started. -/
theorem gave_cases {v : V} {ls : List (Label ι κ)} {l : Label ι κ} {i : ι} {c : κ}
    (h : .gave i c ∈ (machine O).out ((machine O).exec (start O ι v) ls) l) :
    (((machine O).exec (start O ι v) ls).phase i).call = some c
        ∧ O.offer c ((machine O).exec (start O ι v) ls).cell = none
      ∨ O.tries c ≤ tookSince i ((machine O).log (start O ι v) ls) := by
  have hpaid := run_paid (O := O) v ls
  generalize (machine O).exec (start O ι v) ls = s at h hpaid ⊢
  generalize (machine O).log (start O ι v) ls = log at hpaid ⊢
  change .gave i c ∈ (next O s l).2 at h
  cases l with
  | call j c' =>
    unfold next at h
    simp only at h
    split at h
    · split at h
      · rename_i ht
        obtain ⟨rfl, rfl⟩ : i = j ∧ c = c' := by simpa using h
        exact Or.inr (by omega)
      · simp at h
    · simp at h
  | tick j =>
    have hj := hpaid j
    unfold next at h
    simp only at h
    split at h
    · simp at h
    · rename_i c' left hph
      split at h
      · rename_i ho
        obtain ⟨rfl, rfl⟩ : i = j ∧ c = c' := by simpa using h
        exact Or.inl ⟨by rw [hph]; rfl, ho⟩
      · simp at h
    · rename_i c' left seen new ho hph
      rw [hph] at hj
      split at h
      · simp at h
      · rename_i hne
        split at h
        · rename_i hleft
          obtain ⟨rfl, rfl⟩ : i = j ∧ c = c' := by simpa using h
          have hspent := hj.2 hne
          exact Or.inr (by omega)
        · simp at h

/-- The call a party is in after a step is the one it was in, or the one the step started. -/
theorem step_call {s : State ι O} {l : Label ι κ} {i : ι} {c : κ}
    (h : ((next O s l).1.phase i).call = some c) :
    (s.phase i).call = some c ∨ l = .call i c := by
  have hput {j : ι} {ph : Phase O} (hph : ((s.put j ph).phase i).call = some c) :
      (s.phase i).call = some c ∨ (i = j ∧ ph.call = some c) := by
    by_cases hi : i = j
    · subst hi
      exact Or.inr ⟨rfl, by simpa [State.put] using hph⟩
    · exact Or.inl (by simpa [State.put, hi] using hph)
  have hretry {c' : κ} {left : ℕ} (hc : (Phase.retry O c' left).call = some c) : c' = c := by
    rw [retry_call] at hc
    split at hc
    · cases hc
    · exact Option.some.inj hc
  cases l with
  | call j c' =>
    unfold next at h
    simp only at h
    split at h
    · rcases hput h with hs | ⟨rfl, hc⟩
      · exact Or.inl hs
      · rw [hretry hc]
        exact Or.inr rfl
    · exact Or.inl h
  | tick j =>
    left
    unfold next at h
    simp only at h
    split at h
    · exact h
    · rename_i c' left hph
      split at h
      · rcases hput h with hs | ⟨-, hc⟩
        · exact hs
        · cases hc
      · rcases hput h with hs | ⟨rfl, hc⟩
        · exact hs
        · rw [hph]
          exact hc
    · rename_i c' left seen new ho hph
      split at h
      · rcases hput h with hs | ⟨-, hc⟩
        · exact hs
        · cases hc
      · rcases hput h with hs | ⟨rfl, hc⟩
        · exact hs
        · rw [hph, ← hretry hc]
          rfl

end Cell
