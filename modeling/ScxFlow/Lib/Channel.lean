import Mathlib.Data.List.Basic

/-!
# A bounded channel

A channel holds values in the order they were sent, never more than its bound: a send to a full one
drops the value, and a receive takes the oldest.  Of what was sent, what was received is a prefix and
what is held is the rest.
-/

/-- A channel that holds at most `bound` values, oldest first. -/
structure Channel (bound : ℕ) (α : Type*) where
  held : List α
  fits : held.length ≤ bound

namespace Channel

variable {bound : ℕ} {α : Type*}

def empty : Channel bound α := ⟨[], Nat.zero_le _⟩

def isFull (c : Channel bound α) : Bool := decide (c.held.length = bound)

theorem lt_of_room {c : Channel bound α} (h : c.isFull = false) : c.held.length < bound :=
  Nat.lt_of_le_of_ne c.fits (of_decide_eq_false h)

/-- A send that drops the value where the channel is full. -/
def trySend (c : Channel bound α) (a : α) : Channel bound α :=
  if h : c.isFull = true then c
  else ⟨c.held ++ [a], by
    rw [List.length_append]
    exact lt_of_room (Bool.eq_false_iff.mpr h)⟩

/-- A receive: the oldest value with the channel behind it, if there is one. -/
def recv (c : Channel bound α) : Option (α × Channel bound α) :=
  match hc : c.held with
  | [] => none
  | a :: rest => some (a, ⟨rest, by
      have := c.fits
      rw [hc, List.length_cons] at this
      omega⟩)

theorem held_trySend {c : Channel bound α} (h : c.isFull = false) (a : α) :
    (c.trySend a).held = c.held ++ [a] := by
  unfold trySend
  rw [dif_neg (Bool.eq_false_iff.mp h)]

theorem trySend_full {c : Channel bound α} (h : c.isFull = true) (a : α) : c.trySend a = c :=
  dif_pos h

theorem recv_eq_none {c : Channel bound α} (h : c.recv = none) : c.held = [] := by
  unfold recv at h
  split at h
  · assumption
  · cases h

theorem recv_eq_some {c c' : Channel bound α} {a : α} (h : c.recv = some (a, c')) :
    c.held = a :: c'.held := by
  unfold recv at h
  split at h
  · cases h
  · rename_i b rest hc
    obtain ⟨rfl, rfl⟩ := Prod.mk.inj (Option.some.inj h)
    exact hc

/-- Of the values sent, these were received and the rest is held. -/
def Holds (c : Channel bound α) (sent received : List α) : Prop := received ++ c.held = sent

theorem Holds.trySend {c : Channel bound α} {sent received : List α} (h : c.Holds sent received)
    (hroom : c.isFull = false) (a : α) : (c.trySend a).Holds (sent ++ [a]) received := by
  unfold Holds at h ⊢
  rw [held_trySend hroom, ← List.append_assoc, h]

theorem Holds.recv {c c' : Channel bound α} {sent received : List α} {a : α}
    (h : c.Holds sent received) (hc : c.recv = some (a, c')) :
    c'.Holds sent (received ++ [a]) := by
  unfold Holds at h ⊢
  rw [← h, recv_eq_some hc, List.append_assoc]
  rfl

/-- A receiver is never further behind than the bound. -/
theorem Holds.behind {c : Channel bound α} {sent received : List α} (h : c.Holds sent received) :
    sent.length ≤ received.length + bound := by
  have hlen := congrArg List.length h
  have hfits := c.fits
  rw [List.length_append] at hlen
  omega

end Channel
