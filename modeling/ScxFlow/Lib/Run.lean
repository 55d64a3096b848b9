import Mathlib.Data.List.Induction
import Mathlib.Order.Basic

/-!
# Runs of a machine with a log

A machine steps on labels and puts something on a log at every step.  A run folds the steps; an
invariant of the state and the log so far that every step keeps holds at the end of every run, and
an observation no step changes is what it was at the start.
-/

/-- A machine over states `σ` and labels `ℓ` that logs `ω`. -/
structure Machine (σ ℓ ω : Type*) where
  step : σ → ℓ → σ
  out : σ → ℓ → List ω

namespace Machine

variable {σ ℓ ω : Type*} (M : Machine σ ℓ ω)

/-- The state a run ends in. -/
def exec (s : σ) : List ℓ → σ
  | [] => s
  | l :: ls => exec (M.step s l) ls

/-- The log a run leaves. -/
def log (s : σ) : List ℓ → List ω
  | [] => []
  | l :: ls => M.out s l ++ log (M.step s l) ls

/-- A condition on a state and its next label that every step of the run meets. -/
def Along (P : σ → ℓ → Prop) (s : σ) : List ℓ → Prop
  | [] => True
  | l :: ls => P s l ∧ Along P (M.step s l) ls

@[simp] theorem exec_nil (s : σ) : M.exec s [] = s := rfl

@[simp] theorem exec_cons (s : σ) (l : ℓ) (ls : List ℓ) :
    M.exec s (l :: ls) = M.exec (M.step s l) ls := rfl

@[simp] theorem log_nil (s : σ) : M.log s [] = [] := rfl

@[simp] theorem log_cons (s : σ) (l : ℓ) (ls : List ℓ) :
    M.log s (l :: ls) = M.out s l ++ M.log (M.step s l) ls := rfl

@[simp] theorem along_nil (P : σ → ℓ → Prop) (s : σ) : M.Along P s [] ↔ True := Iff.rfl

@[simp] theorem along_cons (P : σ → ℓ → Prop) (s : σ) (l : ℓ) (ls : List ℓ) :
    M.Along P s (l :: ls) ↔ P s l ∧ M.Along P (M.step s l) ls := Iff.rfl

instance Along.decidable (P : σ → ℓ → Prop) [∀ s l, Decidable (P s l)] :
    ∀ (s : σ) (ls : List ℓ), Decidable (M.Along P s ls)
  | _, [] => .isTrue trivial
  | s, l :: ls =>
    have := Along.decidable P (M.step s l) ls
    inferInstanceAs (Decidable (P s l ∧ M.Along P (M.step s l) ls))

theorem exec_append (s : σ) : ∀ ls ls' : List ℓ,
    M.exec s (ls ++ ls') = M.exec (M.exec s ls) ls'
  | [], _ => rfl
  | l :: ls, ls' => exec_append (M.step s l) ls ls'

theorem log_append (s : σ) : ∀ ls ls' : List ℓ,
    M.log s (ls ++ ls') = M.log s ls ++ M.log (M.exec s ls) ls'
  | [], _ => rfl
  | l :: ls, ls' => by simp [log_append (M.step s l) ls ls']

theorem along_append (P : σ → ℓ → Prop) (s : σ) : ∀ ls ls' : List ℓ,
    M.Along P s (ls ++ ls') ↔ M.Along P s ls ∧ M.Along P (M.exec s ls) ls'
  | [], ls' => by simp
  | l :: ls, ls' => by
    simp only [List.cons_append, along_cons, exec_cons, and_assoc]
    rw [along_append P (M.step s l) ls ls']

theorem along_of_forall {P : σ → ℓ → Prop} (h : ∀ s l, P s l) :
    ∀ (s : σ) (ls : List ℓ), M.Along P s ls
  | _, [] => trivial
  | s, l :: ls => ⟨h s l, along_of_forall h (M.step s l) ls⟩

/-- A condition holds along a run exactly when it holds at each of its steps. -/
theorem along_iff {P : σ → ℓ → Prop} : ∀ {s : σ} {ls : List ℓ},
    M.Along P s ls ↔ ∀ pre l post, ls = pre ++ l :: post → P (M.exec s pre) l
  | s, [] => by simp
  | s, l :: ls => by
    rw [along_cons, along_iff]
    constructor
    · rintro ⟨h, ht⟩ pre l' post he
      cases pre with
      | nil =>
        obtain ⟨rfl, -⟩ := List.cons.inj he
        exact h
      | cons a pre =>
        obtain ⟨rfl, hrest⟩ := List.cons.inj he
        exact ht pre l' post hrest
    · intro h
      exact ⟨h [] l ls rfl, fun pre l' post he => h (l :: pre) l' post (by rw [he]; rfl)⟩

/-- Every entry of the log was left by one step of the run. -/
theorem mem_log {x : ω} : ∀ {s : σ} {ls : List ℓ}, x ∈ M.log s ls →
    ∃ pre l post, ls = pre ++ l :: post ∧ x ∈ M.out (M.exec s pre) l
  | s, l :: ls, h => by
    rw [log_cons, List.mem_append] at h
    rcases h with h | h
    · exact ⟨[], l, ls, rfl, h⟩
    · obtain ⟨pre, l', post, rfl, hx⟩ := mem_log h
      exact ⟨l :: pre, l', post, rfl, hx⟩

/-- What every step of a run keeps still holds at its end. -/
theorem exec_keeps {I : σ → Prop} : ∀ (ls : List ℓ) {s : σ},
    (∀ s, ∀ l ∈ ls, I s → I (M.step s l)) → I s → I (M.exec s ls)
  | [], _, _, h => h
  | l :: ls, s, hstep, h =>
    exec_keeps ls (fun s l' hl => hstep s l' (List.mem_cons_of_mem l hl))
      (hstep s l List.mem_cons_self h)

/-- An invariant of the state and the log that steps meeting `P` keep holds after every run of
such steps. -/
theorem invariant {P : σ → ℓ → Prop} {I : σ → List ω → Prop}
    (hstep : ∀ s l h, P s l → I s h → I (M.step s l) (h ++ M.out s l)) :
    ∀ (ls : List ℓ) {s : σ} {h : List ω}, M.Along P s ls → I s h →
      I (M.exec s ls) (h ++ M.log s ls)
  | [], s, h, _, hi => by simpa using hi
  | l :: ls, s, h, hp, hi => by
    have hn := invariant hstep ls hp.2 (hstep s l h hp.1 hi)
    simpa [List.append_assoc] using hn

/-- What holds of the empty run and of every run one step longer holds of every run. -/
theorem run_induction {P : σ → ℓ → Prop} {s : σ} {I : List ℓ → Prop} (nil : I [])
    (snoc : ∀ ls l, P (M.exec s ls) l → I ls → I (ls ++ [l])) {ls : List ℓ}
    (h : M.Along P s ls) : I ls := by
  induction ls using List.reverseRecOn with
  | nil => exact nil
  | append_singleton ls l ih =>
    rw [along_append] at h
    exact snoc ls l h.2.1 (ih h.1)

theorem exec_snoc (s : σ) (ls : List ℓ) (l : ℓ) :
    M.exec s (ls ++ [l]) = M.step (M.exec s ls) l := by
  rw [exec_append]
  rfl

/-- Where every step extends a property of the log exactly when it meets `Q`, a run extends it
exactly when all its steps do. -/
theorem log_iff_along {P Q : σ → ℓ → Prop} {I : σ → List ω → Prop} {F : List ω → Prop}
    (hstep : ∀ s l h, P s l → I s h → I (M.step s l) (h ++ M.out s l))
    (hiff : ∀ s l h, P s l → I s h → (F (h ++ M.out s l) ↔ F h ∧ Q s l)) :
    ∀ (ls : List ℓ) {s : σ} {h : List ω}, M.Along P s ls → I s h →
      (F (h ++ M.log s ls) ↔ F h ∧ M.Along Q s ls)
  | [], s, h, _, _ => by simp
  | l :: ls, s, h, hp, hi => by
    have hn := log_iff_along hstep hiff ls hp.2 (hstep s l h hp.1 hi)
    rw [log_cons, along_cons, ← List.append_assoc, hn, hiff s l h hp.1 hi, and_assoc]

/-- Where a step keeps `S` exactly when it meets `Q`, a run stays within `S` exactly when all its
steps do. -/
theorem always_iff_along {P Q : σ → ℓ → Prop} {I S : σ → Prop}
    (hstep : ∀ s l, P s l → I s → I (M.step s l))
    (hiff : ∀ s l, P s l → I s → S s → (S (M.step s l) ↔ Q s l)) :
    ∀ (ls : List ℓ) {s : σ}, M.Along P s ls → I s → S s →
      ((∀ pre post, ls = pre ++ post → S (M.exec s pre)) ↔ M.Along Q s ls)
  | [], s, _, _, hs => by
    refine iff_of_true ?_ trivial
    intro pre post h
    obtain ⟨rfl, -⟩ := List.append_eq_nil_iff.mp h.symm
    exact hs
  | l :: ls, s, hp, hi, hs => by
    have hl := hiff s l hp.1 hi hs
    rw [along_cons]
    constructor
    · intro h
      have hnext : S (M.step s l) := h [l] ls rfl
      refine ⟨hl.mp hnext, ?_⟩
      rw [← always_iff_along hstep hiff ls hp.2 (hstep s l hp.1 hi) hnext]
      intro pre post he
      exact h (l :: pre) post (by rw [he]; rfl)
    · rintro ⟨hq, hrest⟩ pre post he
      rw [← always_iff_along hstep hiff ls hp.2 (hstep s l hp.1 hi) (hl.mpr hq)] at hrest
      cases pre with
      | nil => exact hs
      | cons l' pre =>
        obtain ⟨rfl, rfl⟩ := List.cons.inj he
        exact hrest pre post rfl

end Machine

/-- An observation that no element of a fold changes is what it was before the fold. -/
theorem List.foldl_observe {σ α β : Type*} {f : σ → α → σ} (obs : σ → β) :
    ∀ {l : List α} (s : σ), (∀ s, ∀ a ∈ l, obs (f s a) = obs s) → obs (l.foldl f s) = obs s
  | [], _, _ => rfl
  | a :: l, s, h => by
    rw [List.foldl_cons, foldl_observe obs (f s a) fun s b hb => h s b (List.mem_cons_of_mem a hb)]
    exact h s a List.mem_cons_self
