import ScxFlow.Lib.Run
import Mathlib.Logic.Function.Basic

/-!
# Atomic programs on a word

Parties share one word and run programs on it, an atomic instruction a step, in any order of the
parties.  An outline says what holds of the word and the log, and what a party may rely on at each
point of its program.  Where the steps of a party keep its own assertions and leave those of the
others alone, the outline holds along every run (`Outline.run`).  A program that no other party runs
into computes what its instructions do in a row (`exec_alone`).
-/

/-- A program of atomic instructions on a word, each of which hands on the value it found. -/
inductive Prog (V : Type*)
  | done
  | read (k : V → Prog V)
  | exchange (new : V) (k : V → Prog V)
  /-- Writes only where the word is what was seen. -/
  | swap (seen new : V) (k : V → Prog V)

namespace Prog

variable {V : Type*} [DecidableEq V]

/-- What the next instruction writes over `v`. -/
def writes : Prog V → V → Option V
  | .exchange new _, _ => some new
  | .swap seen new _, v => if v = seen then some new else none
  | _, _ => none

/-- What is left to run once it found `v`. -/
def rest : Prog V → V → Prog V
  | .done, _ => .done
  | .read k, v => k v
  | .exchange _ k, v => k v
  | .swap _ _ k, v => k v

/-- What the program leaves of `v` where it runs alone. -/
def eval : Prog V → V → V
  | .done, v => v
  | .read k, v => (k v).eval v
  | .exchange new k, v => (k v).eval new
  | .swap seen new k, v => (k v).eval (if v = seen then new else v)

theorem eval_rest (p : Prog V) (v : V) : (p.rest v).eval ((p.writes v).getD v) = p.eval v := by
  cases p with
  | done => rfl
  | read k => rfl
  | exchange new k => rfl
  | swap seen new k =>
    show (k v).eval ((if v = seen then some new else none).getD v)
      = (k v).eval (if v = seen then new else v)
    split_ifs
    · rfl
    · rfl

end Prog

namespace Atomic

variable {ι κ V : Type*}

/-- The word, and of each party the call it is in with what is left of its program. -/
structure State (ι κ V : Type*) where
  word : V
  pc : ι → Option (κ × Prog V)

/-- A party starts a call, or takes the next step of the one it is in. -/
inductive Label (ι κ : Type*)
  | call (i : ι) (c : κ)
  | tick (i : ι)

/-- What a step logs. -/
inductive Event (ι κ V : Type*)
  | called (i : ι) (c : κ)
  | wrote (i : ι) (c : κ) (old new : V)
  | returned (i : ι) (c : κ)

variable [DecidableEq ι]

def State.put (s : State ι κ V) (i : ι) (a : Option (κ × Prog V)) : State ι κ V :=
  { s with pc := Function.update s.pc i a }

variable [DecidableEq V] (code : κ → Prog V)

/-- One step and what it logs.  A party in a call starts no other. -/
def next (s : State ι κ V) : Label ι κ → State ι κ V × List (Event ι κ V)
  | .call i c =>
    match s.pc i with
    | none => (s.put i (some (c, code c)), [.called i c])
    | some _ => (s, [])
  | .tick i =>
    match s.pc i with
    | none => (s, [])
    | some (c, .done) => (s.put i none, [.returned i c])
    | some (c, p) =>
      ({ s.put i (some (c, p.rest s.word)) with word := (p.writes s.word).getD s.word },
        (p.writes s.word).toList.map (.wrote i c s.word))

/-- The word and its parties as a machine. -/
def machine : Machine (State ι κ V) (Label ι κ) (Event ι κ V) where
  step s l := (next code s l).1
  out s l := (next code s l).2

/-- The state with every party idle. -/
def start (ι κ : Type*) (v : V) : State ι κ V := ⟨v, fun _ => none⟩

theorem tick_step {s : State ι κ V} {i : ι} {c : κ} {p : Prog V} (hi : s.pc i = some (c, p))
    (hp : p ≠ .done) : next code s (.tick i)
      = ({ s.put i (some (c, p.rest s.word)) with word := (p.writes s.word).getD s.word },
        (p.writes s.word).toList.map (.wrote i c s.word)) := by
  cases p with
  | done => exact absurd rfl hp
  | _ => simp only [next, hi]

/-- What a party does on the word: from where it stands to where it comes, with what it leaves of the
word and logs.  It starts only calls that meet `P`. -/
inductive Move (P : ι → κ → Prop) (i : ι) (v : V) :
    Option (κ × Prog V) → Option (κ × Prog V) → V → List (Event ι κ V) → Prop
  | call (c : κ) (hc : P i c) : Move P i v none (some (c, code c)) v [.called i c]
  | step (c : κ) (p : Prog V) : Move P i v (some (c, p)) (some (c, p.rest v))
    ((p.writes v).getD v) ((p.writes v).toList.map (.wrote i c v))
  | ret (c : κ) : Move P i v (some (c, .done)) none v [.returned i c]

variable {code} {P : ι → κ → Prop}

/-- A step does nothing, or is a move of one party. -/
theorem step_cases (s : State ι κ V) {l : Label ι κ} (hl : ∀ i c, l = .call i c → P i c) :
    next code s l = (s, []) ∨ ∃ i a v' es, Move code P i s.word (s.pc i) a v' es
      ∧ next code s l = ({ s.put i a with word := v' }, es) := by
  cases l with
  | call i c =>
    rcases hi : s.pc i with _ | a
    · refine Or.inr ⟨i, some (c, code c), s.word, [.called i c], ?_, by simp only [next, hi]; rfl⟩
      rw [hi]
      exact .call c (hl i c rfl)
    · exact Or.inl (by simp only [next, hi])
  | tick i =>
    rcases hi : s.pc i with _ | ⟨c, p⟩
    · exact Or.inl (by simp only [next, hi])
    · right
      by_cases hp : p = .done
      · subst hp
        refine ⟨i, none, s.word, [.returned i c], ?_, by simp only [next, hi]; rfl⟩
        rw [hi]
        exact .ret c
      · refine ⟨i, _, _, _, ?_, tick_step code hi hp⟩
        rw [hi]
        exact .step c p

section Outlines

/-- An outline: `I` of the word and the log, and `A` at the points of the programs.  A move of a party
keeps the invariant and its own assertions, and leaves those of the others alone. -/
structure Outline (code : κ → Prog V) (P : ι → κ → Prop) (I : V → List (Event ι κ V) → Prop)
    (A : ι → κ → Prog V → V → List (Event ι κ V) → Prop) : Prop where
  own : ∀ i v log a a' v' es, Move code P i v a a' v' es → I v log →
    (∀ c p, a = some (c, p) → A i c p v log) →
    I v' (log ++ es) ∧ ∀ c p, a' = some (c, p) → A i c p v' (log ++ es)
  free : ∀ i v log a a' v' es, Move code P i v a a' v' es → I v log →
    (∀ c p, a = some (c, p) → A i c p v log) → ∀ j c p, j ≠ i → A j c p v log →
    A j c p v' (log ++ es)

/-- What an outline says of a state and the log that led to it. -/
structure Holds (I : V → List (Event ι κ V) → Prop)
    (A : ι → κ → Prog V → V → List (Event ι κ V) → Prop) (s : State ι κ V)
    (log : List (Event ι κ V)) : Prop where
  word : I s.word log
  points : ∀ i c p, s.pc i = some (c, p) → A i c p s.word log

variable {I : V → List (Event ι κ V) → Prop} {A : ι → κ → Prog V → V → List (Event ι κ V) → Prop}

theorem Outline.step (h : Outline code P I A) {s : State ι κ V} {log : List (Event ι κ V)}
    {l : Label ι κ} (hl : ∀ i c, l = .call i c → P i c) (hs : Holds I A s log) :
    Holds I A ((machine code).step s l) (log ++ (machine code).out s l) := by
  show Holds I A (next code s l).1 (log ++ (next code s l).2)
  rcases step_cases s hl with heq | ⟨i, a, v', es, hmove, heq⟩
  · rw [heq, List.append_nil]
    exact hs
  · obtain ⟨hword, hown⟩ := h.own _ _ _ _ _ _ _ hmove hs.word (hs.points i)
    rw [heq]
    refine ⟨hword, fun j c p hj => ?_⟩
    by_cases hji : j = i
    · subst hji
      exact hown c p (by simpa [State.put] using hj)
    · have hstill : s.pc j = some (c, p) := by simpa [State.put, hji] using hj
      exact h.free _ _ _ _ _ _ _ hmove hs.word (hs.points i) j c p hji (hs.points j c p hstill)

/-- An outline holds along every run whose calls meet `P`, in whatever order the parties step. -/
theorem Outline.run (h : Outline code P I A) {v : V} (hv : I v []) {ls : List (Label ι κ)}
    (hls : ∀ i c, .call i c ∈ ls → P i c) :
    Holds I A ((machine code).exec (start ι κ v) ls) ((machine code).log (start ι κ v) ls) := by
  have hrun := (machine code).invariant (P := fun _ l => l ∈ ls) (I := Holds I A)
    (fun s l log hl hs => h.step (fun i c he => hls i c (he ▸ hl)) hs) ls (h := [])
    (s := start ι κ v) ?_ ⟨hv, fun _ _ _ hp => nomatch hp⟩
  · simpa using hrun
  · rw [Machine.along_iff]
    rintro pre l post rfl
    simp

end Outlines

section Alone

/-- The ticks of a party alone take its word to `v` and end its call. -/
def Finishes (code : κ → Prog V) (s : State ι κ V) (i : ι) (v : V) : Prop :=
  ∃ n, ((machine code).exec s (List.replicate n (.tick i))).word = v
    ∧ ((machine code).exec s (List.replicate n (.tick i))).pc i = none

theorem Finishes.of_tick {s : State ι κ V} {i : ι} {v : V}
    (h : Finishes code ((machine code).step s (.tick i)) i v) : Finishes code s i v := by
  obtain ⟨n, hn⟩ := h
  exact ⟨n + 1, hn⟩

theorem finishes_rest {i : ι} {c : κ} (p : Prog V) : ∀ s : State ι κ V, s.pc i = some (c, p) →
    Finishes code s i (p.eval s.word) := by
  have hone {p : Prog V} {s : State ι κ V} (hi : s.pc i = some (c, p)) (hp : p ≠ .done)
      (ih : ∀ s' : State ι κ V, s'.pc i = some (c, p.rest s.word) →
        Finishes code s' i ((p.rest s.word).eval s'.word)) : Finishes code s i (p.eval s.word) := by
    refine Finishes.of_tick ?_
    rw [← p.eval_rest s.word]
    show Finishes code (next code s (.tick i)).1 i _
    rw [tick_step code hi hp]
    exact ih _ (by simp [State.put])
  induction p with
  | done =>
    intro s hi
    refine ⟨1, ?_, ?_⟩
    · simp only [List.replicate_one, Machine.exec_cons, Machine.exec_nil, machine, next, hi]
      rfl
    · simp [machine, next, hi, State.put]
  | read k ih => exact fun s hi => hone hi (fun h => nomatch h) (ih s.word)
  | exchange new k ih => exact fun s hi => hone hi (fun h => nomatch h) (ih s.word)
  | swap seen new k ih => exact fun s hi => hone hi (fun h => nomatch h) (ih s.word)

/-- A call no other party runs into computes its program. -/
theorem finishes_call {s : State ι κ V} {i : ι} (c : κ) (hi : s.pc i = none) :
    Finishes code ((machine code).step s (.call i c)) i ((code c).eval s.word) := by
  have hcall : (machine code).step s (.call i c) = s.put i (some (c, code c)) := by
    simp only [machine, next, hi]
  rw [hcall]
  exact finishes_rest (c := c) (code c) (s.put i (some (c, code c))) (by simp [State.put])

end Alone

end Atomic
