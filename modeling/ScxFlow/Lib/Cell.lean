import ScxFlow.Lib.Run
import Mathlib.Algebra.GroupWithZero.Nat
import Mathlib.Algebra.Order.BigOperators.Group.List
import Mathlib.Algebra.Order.Group.Nat
import Mathlib.Data.List.Perm.Subperm
import Mathlib.Logic.Function.Basic

/-!
# A cell behind compare and swap

Parties share one cell.  A call reads it, offers a new value for what it read or gives up, and swaps
that value in if the cell still holds what it read; after a lost swap it tries again, a bounded
number of times.  Reads and swaps are steps of their own, in any order of the parties.

Whatever the order, a step changes the cell only by a swap that took, on the value the cell then
holds, and that swap ends its call (`Cell.step_cases`).  So a property of the cell and the log that
calls, lost calls and offers on the current value keep holds along every run (`Cell.invariant`).
-/

/-- The calls on a cell: how often each tries, and what it offers for a value it read. -/
structure CellOps (κ V : Type*) where
  tries : κ → ℕ
  offer : κ → V → Option V

namespace Cell

variable {ι κ V : Type*} (O : CellOps κ V)

/-- Where a party stands. -/
inductive Phase
  | idle
  | reading (c : κ) (left : ℕ)
  /-- The swap to come offers `next` for the value seen. -/
  | swapping (c : κ) (left : ℕ) (seen next : V) (h : O.offer c seen = some next)

/-- The call a party is in. -/
def Phase.call {O : CellOps κ V} : Phase O → Option κ
  | .idle => none
  | .reading c _ => some c
  | .swapping c _ _ _ _ => some c

/-- The cell and its parties. -/
structure State (ι : Type*) (O : CellOps κ V) where
  cell : V
  phase : ι → Phase O

/-- A party starts a call, or takes the next step of the one it is in. -/
inductive Label (ι κ : Type*)
  | call (i : ι) (c : κ)
  | tick (i : ι)

/-- What a step logs: a call started, a call whose swap took, a call that ended without one. -/
inductive Event (ι κ V : Type*)
  | called (i : ι) (c : κ)
  | took (i : ι) (c : κ) (old new : V)
  | gave (i : ι) (c : κ)

def Label.party : Label ι κ → ι
  | .call i _ => i
  | .tick i => i

def Event.party : Event ι κ V → ι
  | .called i _ => i
  | .took i _ _ _ => i
  | .gave i _ => i

/-- The calls a log starts, and those it ends. -/
def started (log : List (Event ι κ V)) : List (ι × κ) :=
  log.filterMap fun
    | .called i c => some (i, c)
    | _ => none

def ended (log : List (Event ι κ V)) : List (ι × κ) :=
  log.filterMap fun
    | .took i c _ _ => some (i, c)
    | .gave i c => some (i, c)
    | _ => none

@[simp] theorem started_append (log log' : List (Event ι κ V)) :
    started (log ++ log') = started log ++ started log' := List.filterMap_append

@[simp] theorem ended_append (log log' : List (Event ι κ V)) :
    ended (log ++ log') = ended log ++ ended log' := List.filterMap_append

/-- A phase with `left` tries to go, which is idle at none. -/
def Phase.retry (c : κ) : ℕ → Phase O
  | 0 => .idle
  | left + 1 => .reading c left

variable {O} in
theorem retry_call (c : κ) (left : ℕ) :
    (Phase.retry O c left).call = if left = 0 then none else some c := by
  cases left <;> rfl

variable [DecidableEq ι]

def State.put {O : CellOps κ V} (s : State ι O) (i : ι) (ph : Phase O) : State ι O :=
  { s with phase := Function.update s.phase i ph }

/-- One for the call a party is in. -/
def busy [DecidableEq κ] {O : CellOps κ V} (s : State ι O) (x : ι × κ) : ℕ :=
  if (s.phase x.1).call = some x.2 then 1 else 0

variable {O} in
theorem busy_put [DecidableEq κ] (s : State ι O) (i : ι) (ph : Phase O) (x : ι × κ) :
    busy (s.put i ph) x = if x.1 = i then (if ph.call = some x.2 then 1 else 0) else busy s x := by
  unfold busy State.put
  by_cases hx : x.1 = i
  · simp [hx]
  · simp [hx]

variable [DecidableEq V]

/-- One step and what it logs.  A party in a call starts no other. -/
def next (s : State ι O) : Label ι κ → State ι O × List (Event ι κ V)
  | .call i c =>
    match s.phase i with
    | .idle => (s.put i (.retry O c (O.tries c)),
        .called i c :: if O.tries c = 0 then [.gave i c] else [])
    | _ => (s, [])
  | .tick i =>
    match s.phase i with
    | .idle => (s, [])
    | .reading c left =>
      match h : O.offer c s.cell with
      | none => (s.put i .idle, [.gave i c])
      | some new => (s.put i (.swapping c left s.cell new h), [])
    | .swapping c left seen new _ =>
      if s.cell = seen then ({ s.put i .idle with cell := new }, [.took i c seen new])
      else (s.put i (.retry O c left), if left = 0 then [.gave i c] else [])

/-- The cell and its parties as a machine. -/
def machine : Machine (State ι O) (Label ι κ) (Event ι κ V) where
  step s l := (next O s l).1
  out s l := (next O s l).2

/-- The state with every party idle. -/
def start (ι : Type*) (v : V) : State ι O := ⟨v, fun _ => .idle⟩

variable {O} {s : State ι O}

/-- A step leaves the cell and logs no swap, or is the one swap that ends its call. -/
theorem step_cases (s : State ι O) (l : Label ι κ) :
    ((next O s l).1.cell = s.cell ∧ ∀ i c old new, .took i c old new ∉ (next O s l).2)
      ∨ ∃ i c new, l = .tick i ∧ O.offer c s.cell = some new
        ∧ (s.phase i).call = some c ∧ (next O s l).2 = [.took i c s.cell new]
        ∧ (next O s l).1.cell = new ∧ (next O s l).1.phase i = .idle := by
  cases l with
  | call i c =>
    left
    unfold next
    simp only
    split
    · refine ⟨rfl, fun i' c' old new h => ?_⟩
      split at h <;> simp at h
    · exact ⟨rfl, by simp⟩
  | tick i =>
    unfold next
    simp only
    split
    · exact Or.inl ⟨rfl, by simp⟩
    · split
      · exact Or.inl ⟨rfl, by simp⟩
      · exact Or.inl ⟨rfl, by simp⟩
    · rename_i c left seen new ho hph
      split
      · rename_i hs
        refine Or.inr ⟨i, c, new, rfl, hs ▸ ho, by rw [hph]; rfl, by rw [hs], rfl, ?_⟩
        simp [State.put]
      · refine Or.inl ⟨rfl, fun i' c' old new' h => ?_⟩
        split at h <;> simp at h

/-- A party whose call gives up has changed nothing by it: the steps it takes in a stretch where it
starts a call and gives it up leave the cell to the others. -/
theorem cell_of_failed {i : ι} {c : κ} {ls : List (Label ι κ)}
    (h : ((machine O).log s ls).filter (fun e => e.party = i) = [.called i c, .gave i c]) :
    (machine O).Along (fun s l => l.party = i → ((machine O).step s l).cell = s.cell) s ls := by
  rw [Machine.along_iff]
  rintro pre l post rfl hl
  rcases step_cases ((machine O).exec s pre) l with hk | ⟨j, c', new, rfl, -, -, ho, -, -⟩
  · exact hk.1
  · obtain rfl : j = i := hl
    have htook : Event.took j c' ((machine O).exec s pre).cell new
        ∈ (machine O).out ((machine O).exec s pre) (.tick j) := by
      show _ ∈ (next O ((machine O).exec s pre) (.tick j)).2
      rw [ho]
      exact List.mem_singleton_self _
    have hmem : Event.took j c' ((machine O).exec s pre).cell new
        ∈ ((machine O).log s (pre ++ .tick j :: post)).filter (fun e => e.party = j) := by
      rw [List.mem_filter, Machine.log_append, Machine.log_cons]
      exact ⟨List.mem_append_right _ (List.mem_append_left _ htook), by simp [Event.party]⟩
    rw [h] at hmem
    simp at hmem

/-- What a cell and a log satisfy along every run, if it outlives every event but a swap, and every
swap on the value the cell holds. -/
theorem invariant {I : V → List (Event ι κ V) → Prop}
    (hother : ∀ v log es, (∀ i c old new, .took i c old new ∉ es) → I v log → I v (log ++ es))
    (htook : ∀ v log i c new, O.offer c v = some new → I v log →
      I new (log ++ [.took i c v new]))
    (ls : List (Label ι κ)) (h : I s.cell []) :
    I ((machine O).exec s ls).cell ((machine O).log s ls) := by
  have hrun := (machine O).invariant (P := fun _ _ => True) (I := fun s log => I s.cell log)
    (fun s l log _ hi => ?_) ls (s := s) (h := []) ((machine O).along_of_forall (by simp) s ls) h
  · simpa using hrun
  · rcases step_cases s l with ⟨hc, hn⟩ | ⟨i, c, new, -, ho, -, he, hc, -⟩
    · show I (next O s l).1.cell _
      rw [hc]
      exact hother _ _ _ hn hi
    · show I (next O s l).1.cell (log ++ (next O s l).2)
      rw [hc, he]
      exact htook _ _ _ _ _ ho hi

section Balance

variable [DecidableEq κ]

/-- A step starts a call, ends the one its party is in, or goes on with it. -/
theorem step_balance (s : State ι O) (l : Label ι κ) (x : ι × κ) :
    (ended (next O s l).2).count x + busy (next O s l).1 x
      = busy s x + (started (next O s l).2).count x := by
  obtain ⟨i', c'⟩ := x
  cases l with
  | call i c =>
    unfold next
    simp only
    split
    · rename_i hph
      rw [busy_put, retry_call]
      by_cases hi : i' = i
      · subst hi
        by_cases hc : c = c'
        · subst hc
          by_cases ht : O.tries c = 0
          all_goals simp [started, ended, busy, hph, ht, Phase.call]
        · by_cases ht : O.tries c = 0
          all_goals simp [started, ended, busy, hph, ht, hc, Phase.call]
      · have hi' : i ≠ i' := fun h => hi h.symm
        by_cases ht : O.tries c = 0
        all_goals simp [started, ended, hi, hi', ht]
    · simp [started, ended]
  | tick i =>
    unfold next
    simp only
    split
    · simp [started, ended]
    · rename_i c left hph
      split
      · rw [busy_put]
        by_cases hi : i' = i
        · subst hi
          by_cases hc : c = c'
          all_goals simp [started, ended, busy, hph, hc, Phase.call]
        · have hi' : i ≠ i' := fun h => hi h.symm
          simp [started, ended, hi, hi']
      · rw [busy_put]
        by_cases hi : i' = i
        · subst hi
          simp [started, ended, busy, hph, Phase.call]
        · simp [started, ended, hi]
    · rename_i c left seen new ho hph
      split
      · show _ + busy (s.put i .idle) (i', c') = _
        rw [busy_put]
        by_cases hi : i' = i
        · subst hi
          by_cases hc : c = c'
          all_goals simp [started, ended, busy, hph, hc, Phase.call]
        · have hi' : i ≠ i' := fun h => hi h.symm
          simp [started, ended, hi, hi']
      · rw [busy_put, retry_call]
        by_cases hi : i' = i
        · subst hi
          by_cases ht : left = 0 <;> by_cases hc : c = c'
          all_goals simp [started, ended, busy, hph, ht, hc, Phase.call]
        · have hi' : i ≠ i' := fun h => hi h.symm
          by_cases ht : left = 0
          all_goals simp [started, ended, hi, hi', ht]

/-- From idle parties, the calls a run has started are those it ended and those under way. -/
theorem run_balance (v : V) (ls : List (Label ι κ)) (x : ι × κ) :
    (ended ((machine O).log (start O ι v) ls)).count x
        + busy ((machine O).exec (start O ι v) ls) x
      = (started ((machine O).log (start O ι v) ls)).count x := by
  have hrun := (machine O).invariant (P := fun _ _ => True)
    (I := fun s log => (ended log).count x + busy s x = (started log).count x)
    (fun s l log _ hi => ?_) ls (s := start O ι v) (h := [])
    ((machine O).along_of_forall (by simp) _ ls) rfl
  · simpa using hrun
  · have hstep := step_balance s l x
    simp only [ended_append, started_append, List.count_append]
    show _ + (ended (next O s l).2).count x + busy (next O s l).1 x
      = _ + (started (next O s l).2).count x
    omega

/-- So what its ended calls weigh is no more than what its started calls do. -/
theorem sum_ended_le (v : V) (ls : List (Label ι κ)) (f : ι × κ → ℕ) :
    ((ended ((machine O).log (start O ι v) ls)).map f).sum
      ≤ ((started ((machine O).log (start O ι v) ls)).map f).sum := by
  have hsub : (ended ((machine O).log (start O ι v) ls)).Subperm
      (started ((machine O).log (start O ι v) ls)) :=
    List.subperm_ext_iff.mpr fun x _ => (run_balance v ls x).le.trans' (Nat.le_add_right _ _)
  obtain ⟨l, hperm, hsubl⟩ := hsub
  rw [← (hperm.map f).sum_eq]
  exact (hsubl.map f).sum_le_sum fun _ _ => Nat.zero_le _

end Balance

section Alone

theorem tick_none {i : ι} {c : κ} {left : ℕ} (hi : s.phase i = .reading c left)
    (h : O.offer c s.cell = none) : (machine O).step s (.tick i) = s.put i .idle := by
  simp only [machine, next, hi]
  split
  · rfl
  · rename_i ho
    rw [h] at ho
    cases ho

theorem tick_some {i : ι} {c : κ} {left : ℕ} {new : V} (hi : s.phase i = .reading c left)
    (h : O.offer c s.cell = some new) :
    (machine O).step s (.tick i) = s.put i (.swapping c left s.cell new h) := by
  simp only [machine, next, hi]
  split
  · rename_i ho
    rw [h] at ho
    cases ho
  · rename_i new' ho
    obtain rfl : new = new' := Option.some.inj (h.symm.trans ho)
    rfl

theorem tick_swap {i : ι} {c : κ} {left : ℕ} {new : V} (h : O.offer c s.cell = some new) :
    ((machine O).step (s.put i (.swapping c left s.cell new h)) (.tick i)).cell = new := by
  simp [machine, next, State.put]

/-- A call no other party runs into ends on its first try. -/
theorem exec_alone (s : State ι O) (i : ι) (c : κ) (hi : s.phase i = .idle)
    (ht : O.tries c ≠ 0) :
    ((machine O).exec s [.call i c, .tick i, .tick i]).cell = (O.offer c s.cell).getD s.cell := by
  obtain ⟨left, hleft⟩ := Nat.exists_eq_succ_of_ne_zero ht
  have hcall : (machine O).step s (.call i c) = s.put i (.reading c left) := by
    simp [machine, next, hi, hleft, Phase.retry]
  have hread : (s.put i (.reading c left)).phase i = .reading c left := by simp [State.put]
  have hput (ph : Phase O) : (s.put i (.reading c left)).put i ph = s.put i ph := by
    simp [State.put]
  rw [Machine.exec_cons, hcall, Machine.exec_cons, Machine.exec_cons, Machine.exec_nil]
  rcases ho : O.offer c s.cell with _ | new
  · rw [tick_none hread ho, hput]
    simp [machine, next, State.put]
  · rw [tick_some hread ho, hput]
    exact tick_swap ho

end Alone

end Cell
