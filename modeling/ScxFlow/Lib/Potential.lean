import ScxFlow.Lib.Run
import Mathlib.Algebra.Order.Group.Nat
import Mathlib.Data.Nat.Cast.Order.Basic

/-!
# Totals along a run

A run adds up what its steps weigh.  Where every step trades what it takes off a measure of the
state against what it puts on, the run does (`balance`); where a step takes off at least its own
weight, the weights of a run are bounded by the measure it starts from and by what the other steps
put on (`amortized`).
-/

namespace Machine

variable {σ ℓ ω : Type*} (M : Machine σ ℓ ω)

/-- What the steps of a run weigh together. -/
def total (f : σ → ℓ → ℕ) (s : σ) : List ℓ → ℕ
  | [] => 0
  | l :: ls => f s l + total f (M.step s l) ls

@[simp] theorem total_nil (f : σ → ℓ → ℕ) (s : σ) : M.total f s [] = 0 := rfl

@[simp] theorem total_cons (f : σ → ℓ → ℕ) (s : σ) (l : ℓ) (ls : List ℓ) :
    M.total f s (l :: ls) = f s l + M.total f (M.step s l) ls := rfl

theorem total_congr {P : σ → ℓ → Prop} {f g : σ → ℓ → ℕ} (h : ∀ s l, P s l → f s l = g s l) :
    ∀ {ls : List ℓ} {s : σ}, M.Along P s ls → M.total f s ls = M.total g s ls
  | [], _, _ => rfl
  | l :: ls, s, hp => by
    rw [total_cons, total_cons, h s l hp.1, total_congr h hp.2]

theorem total_ext {f g : σ → ℓ → ℕ} (h : ∀ s l, f s l = g s l) (s : σ) (ls : List ℓ) :
    M.total f s ls = M.total g s ls := by
  rw [show f = g from funext₂ h]

theorem total_add (f g : σ → ℓ → ℕ) (s : σ) : ∀ ls : List ℓ,
    M.total (fun s l => f s l + g s l) s ls = M.total f s ls + M.total g s ls
  | [] => rfl
  | l :: ls => by
    rw [total_cons, total_cons, total_cons, total_add f g (M.step s l) ls]
    omega

theorem total_zero (s : σ) : ∀ ls : List ℓ, M.total (fun _ _ => 0) s ls = 0
  | [] => rfl
  | l :: ls => by rw [total_cons, total_zero (M.step s l) ls]

theorem total_le {f g : σ → ℓ → ℕ} (h : ∀ s l, f s l ≤ g s l) (s : σ) :
    ∀ ls : List ℓ, M.total f s ls ≤ M.total g s ls
  | [] => le_rfl
  | l :: ls => by
    rw [total_cons, total_cons]
    exact Nat.add_le_add (h s l) (total_le h (M.step s l) ls)

theorem total_mul (c : ℕ) (f : σ → ℓ → ℕ) (s : σ) : ∀ ls : List ℓ,
    M.total (fun s l => c * f s l) s ls = c * M.total f s ls
  | [] => rfl
  | l :: ls => by rw [total_cons, total_cons, total_mul c f (M.step s l) ls, Nat.mul_add]

theorem Along.mono {M : Machine σ ℓ ω} {P Q : σ → ℓ → Prop} (h : ∀ s l, P s l → Q s l) :
    ∀ {ls : List ℓ} {s : σ}, M.Along P s ls → M.Along Q s ls
  | [], _, _ => trivial
  | _ :: _, _, hp => ⟨h _ _ hp.1, Along.mono h hp.2⟩

section Carried

variable {τ ω' : Type*} {M} {N : Machine τ ℓ ω'} {π : σ → τ}

theorem total_carried (h : ∀ s l, π (M.step s l) = N.step (π s) l) (f : τ → ℓ → ℕ) :
    ∀ (ls : List ℓ) (s : σ), M.total (fun s l => f (π s) l) s ls = N.total f (π s) ls
  | [], _ => rfl
  | l :: ls, s => by rw [total_cons, total_cons, total_carried h f ls (M.step s l), h]

theorem along_carried (h : ∀ s l, π (M.step s l) = N.step (π s) l) {P : τ → ℓ → Prop} :
    ∀ {ls : List ℓ} {s : σ}, M.Along (fun s l => P (π s) l) s ls → N.Along P (π s) ls
  | [], _, _ => trivial
  | _ :: _, _, hp => ⟨hp.1, h _ _ ▸ along_carried h hp.2⟩

end Carried

variable {M} {P : σ → ℓ → Prop} {I : σ → Prop} {φ : σ → ℕ} {f g : σ → ℓ → ℕ}

/-- Steps that meet `P` keep `I`, and a run of them does. -/
theorem exec_along (hstep : ∀ s l, P s l → I s → I (M.step s l)) :
    ∀ {ls : List ℓ} {s : σ}, M.Along P s ls → I s → I (M.exec s ls)
  | [], _, _, h => h
  | l :: ls, s, hp, h => by
    rw [exec_cons]
    exact exec_along hstep hp.2 (hstep s l hp.1 h)

/-- What a run takes off a measure and what it puts on account for the measure it ends with. -/
theorem balance (hkeep : ∀ s l, P s l → I s → I (M.step s l))
    (hstep : ∀ s l, P s l → I s → φ (M.step s l) + f s l = φ s + g s l) :
    ∀ {ls : List ℓ} {s : σ}, M.Along P s ls → I s →
      φ (M.exec s ls) + M.total f s ls = φ s + M.total g s ls
  | [], _, _, _ => rfl
  | l :: ls, s, hp, hi => by
    have hrun := balance hkeep hstep hp.2 (hkeep s l hp.1 hi)
    have hone := hstep s l hp.1 hi
    rw [exec_cons, total_cons, total_cons]
    omega

/-- Steps that take at least `f` off a measure and put at most `g` on it, as long as it is within
`bound`: over a run `f` is at most what the measure held and what `g` put on. -/
theorem amortized {bound : ℕ} (hkeep : ∀ s l, P s l → I s → I (M.step s l))
    (hstep : ∀ s l, P s l → I s → φ s ≤ bound → φ (M.step s l) + f s l ≤ φ s + g s l) :
    ∀ {ls : List ℓ} {s : σ}, M.Along P s ls → I s → φ s + M.total g s ls ≤ bound →
      φ (M.exec s ls) + M.total f s ls ≤ φ s + M.total g s ls
  | [], _, _, _, _ => le_rfl
  | l :: ls, s, hp, hi, hb => by
    rw [total_cons] at hb
    have hone := hstep s l hp.1 hi (by omega)
    have hrun := amortized hkeep hstep hp.2 (hkeep s l hp.1 hi) (by omega)
    rw [exec_cons, total_cons, total_cons]
    omega

end Machine
