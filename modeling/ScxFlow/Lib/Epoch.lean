import Mathlib.Data.List.Induction

/-!
# Epochs of a log

Some entries of a log open an epoch, which lasts until the next such entry.  A property of epochs
that holds of every epoch in every prefix of the log is checked one entry at a time against the
current epoch.
-/

namespace Epoch

variable {ω β : Type*} (opens : ω → Option β)

/-- The current epoch: what its opening entry opened it with, and the entries since. -/
def current : List ω → Option (β × List ω) :=
  List.foldl (fun c x => match opens x with
    | some b => some (b, [])
    | none => c.map fun e => (e.1, e.2 ++ [x])) none

@[simp] theorem current_nil : current opens [] = none := rfl

theorem current_snoc_of_opens {x : ω} {b : β} (h : opens x = some b) (l : List ω) :
    current opens (l ++ [x]) = some (b, []) := by
  simp [current, List.foldl_append, h]

theorem current_snoc_of_not {x : ω} (h : opens x = none) (l : List ω) :
    current opens (l ++ [x]) = (current opens l).map fun e => (e.1, e.2 ++ [x]) := by
  simp [current, List.foldl_append, h]

/-- The current epoch is the part of the log after its last opening entry. -/
theorem current_eq_some_iff {b : β} {seg : List ω} : ∀ {l : List ω},
    current opens l = some (b, seg) ↔
      ∃ pre x, l = pre ++ x :: seg ∧ opens x = some b ∧ ∀ y ∈ seg, opens y = none := by
  intro l
  induction l using List.reverseRecOn generalizing seg with
  | nil => simp
  | append_singleton l y ih =>
    rcases hy : opens y with _ | c
    · rw [current_snoc_of_not opens hy]
      constructor
      · intro h
        obtain ⟨⟨b', seg'⟩, hc, he⟩ := Option.map_eq_some_iff.mp h
        obtain ⟨rfl, rfl⟩ : b' = b ∧ seg' ++ [y] = seg := by simpa using he
        obtain ⟨pre, x, rfl, hx, hn⟩ := ih.mp hc
        refine ⟨pre, x, by simp, hx, fun z hz => ?_⟩
        rcases List.mem_append.mp hz with hz | hz
        · exact hn z hz
        · rw [List.mem_singleton.mp hz]
          exact hy
      · rintro ⟨pre, x, hl, hx, hn⟩
        rcases List.eq_nil_or_concat seg with rfl | ⟨seg', z, rfl⟩
        · have hxy : y = x := by simpa using congrArg List.getLast? hl
          rw [hxy, hx] at hy
          simp at hy
        · have hsplit : l ++ [y] = (pre ++ x :: seg') ++ [z] := by simpa using hl
          obtain ⟨rfl, hz⟩ := List.append_inj' hsplit rfl
          obtain rfl : y = z := by simpa using hz
          have hc : current opens (pre ++ x :: seg') = some (b, seg') :=
            ih.mpr ⟨pre, x, rfl, hx, fun w hw => hn w (by simp [hw])⟩
          rw [hc]
          simp
    · rw [current_snoc_of_opens opens hy]
      constructor
      · intro h
        obtain ⟨rfl, rfl⟩ : c = b ∧ [] = seg := by simpa using h
        exact ⟨l, y, rfl, hy, by simp⟩
      · rintro ⟨pre, x, hl, hx, hn⟩
        rcases List.eq_nil_or_concat seg with rfl | ⟨seg', z, rfl⟩
        · have hxy : y = x := by simpa using congrArg List.getLast? hl
          rw [← hxy, hy] at hx
          simpa using hx
        · have hsplit : l ++ [y] = (pre ++ x :: seg') ++ [z] := by simpa using hl
          obtain ⟨-, hz⟩ := List.append_inj' hsplit rfl
          have hyn := hn z (by simp)
          rw [← List.singleton_inj.mp hz, hy] at hyn
          simp at hyn

/-- `P` holds of every epoch of the log, complete or so far. -/
def Forall (P : β → List ω → Prop) (l : List ω) : Prop :=
  ∀ pre x seg post b, l = pre ++ x :: seg ++ post → opens x = some b →
    (∀ y ∈ seg, opens y = none) → P b seg

variable {opens} {P : β → List ω → Prop}

theorem forall_nil : Forall opens P [] := by
  intro pre x seg post b h
  simp at h

/-- A log satisfies `P` as far as its prefix does and its own current epoch does. -/
theorem forall_snoc {l : List ω} {x : ω} :
    Forall opens P (l ++ [x]) ↔
      Forall opens P l ∧ ∀ b seg, current opens (l ++ [x]) = some (b, seg) → P b seg := by
  constructor
  · intro h
    constructor
    · intro pre y seg post b hl hy hn
      exact h pre y seg (post ++ [x]) b (by simp [hl]) hy hn
    · intro b seg hc
      obtain ⟨pre, y, hl, hy, hn⟩ := (current_eq_some_iff opens).mp hc
      exact h pre y seg [] b (by simp [hl]) hy hn
  · rintro ⟨h, hcur⟩ pre y seg post b hl hy hn
    rcases List.eq_nil_or_concat post with rfl | ⟨post', z, rfl⟩
    · exact hcur b seg ((current_eq_some_iff opens).mpr ⟨pre, y, by simpa using hl, hy, hn⟩)
    · have hsplit : l ++ [x] = (pre ++ y :: seg ++ post') ++ [z] := by simpa using hl
      obtain ⟨rfl, -⟩ := List.append_inj' hsplit rfl
      exact h pre y seg post' b rfl hy hn

theorem forall_snoc_of_opens {l : List ω} {x : ω} {b : β} (hx : opens x = some b)
    (hP : P b []) : Forall opens P (l ++ [x]) ↔ Forall opens P l := by
  rw [forall_snoc, current_snoc_of_opens opens hx]
  refine and_iff_left fun b' seg h => ?_
  obtain ⟨rfl, rfl⟩ : b = b' ∧ [] = seg := by simpa using h
  exact hP

theorem forall_snoc_of_not {l : List ω} {x : ω} (hx : opens x = none) :
    Forall opens P (l ++ [x]) ↔
      Forall opens P l ∧ ∀ b seg, current opens l = some (b, seg) → P b (seg ++ [x]) := by
  rw [forall_snoc, current_snoc_of_not opens hx]
  refine and_congr_right fun _ => ⟨fun h b seg hc => h b (seg ++ [x]) (by simp [hc]), ?_⟩
  intro h b seg hc
  obtain ⟨⟨b', seg'⟩, hc', he⟩ := Option.map_eq_some_iff.mp hc
  obtain ⟨rfl, rfl⟩ : b' = b ∧ seg' ++ [x] = seg := by simpa using he
  exact h b' seg' hc'

theorem Forall.current {l : List ω} (h : Forall opens P l) {b : β} {seg : List ω}
    (hc : current opens l = some (b, seg)) : P b seg := by
  obtain ⟨pre, x, rfl, hx, hn⟩ := (current_eq_some_iff opens).mp hc
  exact h pre x seg [] b (by simp) hx hn

theorem forall_snoc_of_none {l : List ω} {x : ω} (hc : current opens l = none)
    (hx : opens x = none) : Forall opens P (l ++ [x]) ↔ Forall opens P l := by
  rw [forall_snoc_of_not hx, hc]
  simp

theorem forall_snoc_of_some {l : List ω} {x : ω} {b : β} {seg : List ω}
    (hc : current opens l = some (b, seg)) (hx : opens x = none) :
    Forall opens P (l ++ [x]) ↔ Forall opens P l ∧ P b (seg ++ [x]) := by
  rw [forall_snoc_of_not hx, hc]
  refine and_congr_right fun _ => ⟨fun h => h b seg rfl, fun h b' seg' he => ?_⟩
  obtain ⟨rfl, rfl⟩ : b = b' ∧ seg = seg' := by simpa using he
  exact h

end Epoch
