import Mathlib.Data.List.Basic
import Mathlib.Data.List.Range
import Mathlib.Data.List.FinRange
import Mathlib.Data.List.Nodup
import Mathlib.Data.Nat.ModEq

/-!
# Callback loops and windows on a ring

A callback loop calls its body at the indices from zero on, a bounded number of times, until the
body asks to stop.  A window of a ring of `n` places is a run of consecutive places from a base;
it repeats no place while it is no longer than the ring, and holds every place once it is as long.
-/

namespace Loop

variable {σ : Type*}

/-- `count` calls of `body`, the first at index `i`, until one returns true. -/
def callsFrom (body : ℕ → σ → σ × Bool) : ℕ → ℕ → σ → σ
  | _, 0, s => s
  | i, count + 1, s =>
    let r := body i s
    if r.2 then r.1 else callsFrom body (i + 1) count r.1

/-- The loop of `count` calls. -/
def calls (body : ℕ → σ → σ × Bool) (count : ℕ) (s : σ) : σ := callsFrom body 0 count s

variable {body : ℕ → σ → σ × Bool} {count : ℕ} (n : ℕ) (next : ℕ → σ → σ)

/-- A body that steps below a bound and stops at it folds its step over the indices below. -/
theorem callsFrom_eq_foldl (hgo : ∀ i < count, ∀ s, i < n → body i s = (next i s, false))
    (hstop : ∀ i < count, ∀ s, n ≤ i → body i s = (s, true)) :
    ∀ (left i : ℕ) (s : σ), i + left = count →
      callsFrom body i left s = (List.range' i (min left (n - i))).foldl (fun s j => next j s) s
  | 0, i, s, _ => by simp [callsFrom]
  | left + 1, i, s, hi => by
    rcases Nat.lt_or_ge i n with hlt | hge
    · have hlen : min (left + 1) (n - i) = min left (n - (i + 1)) + 1 := by omega
      rw [hlen, List.range'_succ, List.foldl_cons,
        ← callsFrom_eq_foldl hgo hstop left (i + 1) (next i s) (by omega)]
      simp [callsFrom, hgo i (by omega) s hlt]
    · have hlen : min (left + 1) (n - i) = 0 := by omega
      rw [hlen]
      simp [callsFrom, hstop i (by omega) s hge]

theorem calls_eq_foldl (hgo : ∀ i < count, ∀ s, i < n → body i s = (next i s, false))
    (hstop : ∀ i < count, ∀ s, n ≤ i → body i s = (s, true)) (s : σ) :
    calls body count s = (List.range (min count n)).foldl (fun s j => next j s) s := by
  unfold calls
  rw [callsFrom_eq_foldl n next hgo hstop count 0 s (Nat.zero_add count), List.range_eq_range',
    Nat.sub_zero]

end Loop

namespace Ring

/-- The places `base`, `base + 1`, … of a ring of `n`, `len` of them in order. -/
def window (n base len : ℕ) : List ℕ := (List.range len).map fun i => (base + i) % n

variable {n base len : ℕ}

@[simp] theorem length_window (n base len : ℕ) : (window n base len).length = len := by
  simp [window]

theorem mem_window {c : ℕ} : c ∈ window n base len ↔ ∃ i < len, (base + i) % n = c := by
  simp [window]

theorem lt_of_mem_window (hn : 0 < n) {c : ℕ} (h : c ∈ window n base len) : c < n := by
  obtain ⟨i, _, rfl⟩ := mem_window.mp h
  exact Nat.mod_lt _ hn

theorem window_append (n base len len' : ℕ) :
    window n base len ++ window n (base + len) len' = window n base (len + len') := by
  unfold window
  rw [List.range_add, List.map_append, List.map_map]
  congr 1
  exact List.map_congr_left fun i _ => by simp [Nat.add_assoc]

/-- A window no longer than the ring meets no place twice. -/
theorem nodup_window (hlen : len ≤ n) : (window n base len).Nodup := by
  unfold window
  refine List.Nodup.map_on (fun i hi j hj he => ?_) List.nodup_range
  have hmod : i ≡ j [MOD n] := Nat.ModEq.add_left_cancel' base he
  have hi' := (List.mem_range.mp hi).trans_le hlen
  have hj' := (List.mem_range.mp hj).trans_le hlen
  exact hmod.eq_of_lt_of_lt hi' hj'

/-- A window as long as the ring meets every place. -/
theorem mem_window_of_le (hlen : n ≤ len) {c : ℕ} (hc : c < n) : c ∈ window n base len := by
  refine mem_window.mpr ⟨(c + (n - base % n)) % n, (Nat.mod_lt _ (by omega)).trans_le hlen, ?_⟩
  have hb : base % n < n := Nat.mod_lt _ (by omega)
  have hsum : base % n + (c + (n - base % n)) = c + n := by omega
  rw [Nat.add_mod_mod, ← Nat.mod_add_mod, hsum, Nat.add_mod_right, Nat.mod_eq_of_lt hc]

end Ring
