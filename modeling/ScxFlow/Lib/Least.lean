import Mathlib.Data.List.MinMax
import Mathlib.Data.List.Induction

/-!
# The least element of a scan

A scan that keeps the better of the element it holds and the one it meets ends with the least
element past its gate.  Under an order that tells any two elements apart there is one such element,
whatever the order of the scan.
-/

namespace Least

variable {α β γ : Type*} [LinearOrder β] {f : α → β} {l l' : List α}

/-- Under a key that tells elements apart the argument of the minimum is strictly least. -/
theorem argmin_eq_some_iff (hf : Function.Injective f) {c : α} :
    l.argmin f = some c ↔ c ∈ l ∧ ∀ d ∈ l, d ≠ c → f c < f d := by
  constructor
  · intro h
    have hc : c ∈ l.argmin f := h
    refine ⟨List.argmin_mem hc, fun d hd hne => ?_⟩
    exact lt_of_le_of_ne (List.le_of_mem_argmin hd hc) fun he => hne (hf he).symm
  · rintro ⟨hc, hlt⟩
    rcases h : l.argmin f with _ | b
    · rw [List.argmin_eq_none.mp h] at hc
      exact absurd hc List.not_mem_nil
    · have hb : b ∈ l.argmin f := h
      by_contra hne
      have hne' : b ≠ c := fun he => hne (by rw [he])
      exact absurd (hlt b (List.argmin_mem hb) hne') (not_lt_of_ge (List.le_of_mem_argmin hc hb))

/-- Under such a key the least element is one of the set scanned, not of its order. -/
theorem argmin_congr (hf : Function.Injective f) (h : ∀ c, c ∈ l ↔ c ∈ l') :
    l.argmin f = l'.argmin f := by
  refine Option.ext fun c => ?_
  rw [argmin_eq_some_iff hf, argmin_eq_some_iff hf, h]
  exact and_congr_right fun _ => forall_congr' fun d => by rw [h]

/-- A gated fold that keeps the row of the lesser of two elements ends with the row of the least. -/
theorem foldl_eq_argmin {gate : α → Bool} {row : α → γ} {step : Option γ → α → Option γ}
    {P : α → Prop} (hskip : ∀ s a, gate a = false → step s a = s)
    (hfirst : ∀ a, P a → gate a = true → step none a = some (row a))
    (hnext : ∀ b a, P b → P a → gate a = true →
      step (some (row b)) a = some (row (if f a < f b then a else b))) (hl : ∀ a ∈ l, P a) :
    l.foldl step none = ((l.filter gate).argmin f).map row := by
  induction l using List.reverseRecOn with
  | nil => rfl
  | append_singleton l a ih =>
    have hPl : ∀ b ∈ l, P b := fun b hb => hl b (List.mem_append_left _ hb)
    have hPa : P a := hl a (List.mem_append_right _ (List.mem_singleton.mpr rfl))
    rw [List.foldl_append, List.foldl_cons, List.foldl_nil, ih hPl, List.filter_append]
    cases hga : gate a with
    | false => simp [hskip _ _ hga, hga]
    | true =>
      rw [List.filter_cons_of_pos hga, List.filter_nil, List.argmin_concat]
      rcases hbest : (l.filter gate).argmin f with _ | b
      · exact hfirst a hPa hga
      · have hb : b ∈ l := (List.mem_filter.mp (List.argmin_mem hbest)).1
        rw [Option.map_some, hnext b a (hPl b hb) hPa hga]
        show _ = Option.map row (if f a < f b then some a else some b)
        split_ifs <;> rfl

end Least
