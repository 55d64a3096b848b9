import ScxFlow.Proofs.EnqueueShape
import ScxFlow.Proofs.Effects

/-!
# Enqueue neither loses nor duplicates work

On every path one enqueue inserts the task once, and unless the exiting path inserted it directly it
adds one to exactly one of the three verdicts: an admit goes with a tier or the bypass, a reject with
the reject queue.
-/

namespace ScxFlow

/-- The three counters an enqueue chooses from. -/
def IsVerdict (c : Counter) : Prop := c = .admits ∨ c = .redRejects ∨ c = .gateRejects

theorem insertions_of_aside {es : List Effect} (h : ∀ e ∈ es, e.isAside = true) :
    insertions es = [] := by
  rw [insertions_eq_nil]
  intro e he
  have ha := h e he
  cases e <;> simp_all [Effect.isAside, Effect.isPrep, Effect.isKick, Effect.insertedTo]

theorem countsOf_of_aside {es : List Effect} {c : Counter} (hc : IsVerdict c)
    (h : ∀ e ∈ es, e.isAside = true) : countsOf c es = [] := by
  rw [countsOf_eq_nil]
  intro e he
  have ha := h e he
  rcases hc with rfl | rfl | rfl <;> cases e <;> simp only [Effect.counts]
  all_goals
    rename_i c' n
    cases c' <;> simp_all [Effect.isAside, Effect.isPrep, Effect.isKick]

theorem Stores.insertions_eq {now : UInt64} {old new t : Option FlowTaskCtx} {es : List Effect}
    (h : Stores now old new t es) : insertions es = [] := by
  cases h with
  | untested h => rfl
  | tested hint h => split <;> rfl

theorem Stores.countsOf_eq {now : UInt64} {old new t : Option FlowTaskCtx} {es : List Effect}
    {c : Counter} (hc : IsVerdict c) (h : Stores now old new t es) : countsOf c es = [] := by
  cases h with
  | untested h => rfl
  | tested hint h => rcases hc with rfl | rfl | rfl <;> split <;> rfl

theorem Joins.insertions_eq {es : List Effect} {dsq : ℕ} {c : Option Counter}
    (h : Joins es dsq c) : insertions es = [dsq] := by
  cases h <;> rfl

/-- A join counts its own verdict once and no other. -/
theorem Joins.countsOf_eq {es : List Effect} {dsq : ℕ} {c : Option Counter} {v : Counter}
    (h : Joins es dsq c) : countsOf v es = if c = some v then [1] else [] := by
  cases h <;> cases v <;> rfl

/-- The queue a verdict goes with. -/
def VerdictQueue (dsq : ℕ) (c : Counter) : Prop :=
  c = .admits ∧ (IsTier dsq ∨ ∃ cpu, dsq = scxLocalOn cpu)
    ∨ (c = .redRejects ∨ c = .gateRejects) ∧ dsq = flowOverflowDsq

theorem Joins.verdictQueue {es : List Effect} {dsq : ℕ} {c : Counter}
    (h : Joins es dsq (some c)) : VerdictQueue dsq c := by
  cases h with
  | gate => exact Or.inr ⟨Or.inr rfl, rfl⟩
  | red => exact Or.inr ⟨Or.inl rfl, rfl⟩
  | rejoin h => exact Or.inl ⟨rfl, Or.inl h⟩
  | tier h => exact Or.inl ⟨rfl, Or.inl h⟩
  | bypass cpu => exact Or.inl ⟨rfl, Or.inr ⟨cpu, rfl⟩⟩

theorem VerdictQueue.isVerdict {dsq : ℕ} {c : Counter} (h : VerdictQueue dsq c) : IsVerdict c := by
  rcases h with ⟨rfl, _⟩ | ⟨rfl | rfl, _⟩
  · exact Or.inl rfl
  · exact Or.inr (Or.inl rfl)
  · exact Or.inr (Or.inr rfl)

theorem EnqueueShape.insertions_eq {w : World} {k : Kernel} {p : TaskRef} {enqFlags : UInt64}
    {o : OpOut} {dsq : ℕ} {c : Option Counter} (h : EnqueueShape w k p enqFlags o dsq c) :
    insertions o.eff = [dsq] := by
  obtain ⟨prep, store, rest, heff, hp, ⟨join, kicks, rfl, hj, hk⟩, hs⟩ := h.parts
  rw [heff]
  simp [insertions_of_aside (aside_of_isPrep hp), hs.insertions_eq, hj.insertions_eq,
    insertions_of_aside (aside_of_isKick hk)]

theorem EnqueueShape.countsOf_eq {w : World} {k : Kernel} {p : TaskRef} {enqFlags : UInt64}
    {o : OpOut} {dsq : ℕ} {c : Option Counter} (h : EnqueueShape w k p enqFlags o dsq c)
    {v : Counter} (hv : IsVerdict v) : countsOf v o.eff = if c = some v then [1] else [] := by
  obtain ⟨prep, store, rest, heff, hp, ⟨join, kicks, rfl, hj, hk⟩, hs⟩ := h.parts
  rw [heff]
  simp [countsOf_of_aside hv (aside_of_isPrep hp), hs.countsOf_eq hv, hj.countsOf_eq,
    countsOf_of_aside hv (aside_of_isKick hk)]

/-- Among the three verdicts `c` alone went up, by one. -/
def CountedOnce (w w' : World) (k : Kernel) (c : Counter) : Prop :=
  (statsLive w k → w.cpuStats k.smpCpu c ≠ u64Max →
      w'.cpuStats k.smpCpu c = w.cpuStats k.smpCpu c + 1)
    ∧ ∀ v, IsVerdict v → v ≠ c → ∀ cpu, w'.cpuStats cpu v = w.cpuStats cpu v

theorem EnqueueShape.joins {w : World} {k : Kernel} {p : TaskRef} {enqFlags : UInt64} {o : OpOut}
    {dsq : ℕ} {c : Option Counter} (h : EnqueueShape w k p enqFlags o dsq c) :
    ∃ join, Joins join dsq c := by
  obtain ⟨prep, store, rest, heff, hp, ⟨join, kicks, rfl, hj, hk⟩, hs⟩ := h.parts
  exact ⟨join, hj⟩

/-- One enqueue inserts the task into one queue, once, whatever its path.  Off the exiting path it
counts one verdict, which goes with the queue it joined. -/
theorem flowEnqueue_joinsOnce (w : World) (k : Kernel) (p : TaskRef) (enqFlags : UInt64) :
    ∃ dsq, insertions (flowEnqueue w k p enqFlags).eff = [dsq]
      ∧ JoinedOnce w (w.commit k p (flowEnqueue w k p enqFlags)) p dsq
      ∧ (((flowEnqueueExiting w k p enqFlags).isSome = true ∧ ∃ cpu, dsq = scxLocalOn cpu)
        ∨ ∃ c, CountedOnce w (w.commit k p (flowEnqueue w k p enqFlags)) k c
          ∧ VerdictQueue dsq c) := by
  obtain ⟨dsq, c, h⟩ := flowEnqueue_shape w k p enqFlags
  obtain ⟨join, hjoin⟩ := h.joins
  -- the storage is written first, and the effects leave it alone
  let w₀ := { w with taskCtx := Function.update w.taskCtx p (flowEnqueue w k p enqFlags).ctx }
  have hjoined := run_joinedOnce k p w₀ h.insertions_eq
  refine ⟨dsq, h.insertions_eq, hjoined, ?_⟩
  rcases c with _ | c
  · refine Or.inl ⟨h.direct.mp rfl, ?_⟩
    cases hjoin
    exact ⟨_, rfl⟩
  · have hq := hjoin.verdictQueue
    refine Or.inr ⟨c, ⟨fun hl hs => ?_, fun v hv hne cpu => ?_⟩, hq⟩
    · exact run_countedOnce k p w₀ (by simpa using h.countsOf_eq hq.isVerdict) hl hs
    · refine run_stats w₀ k p (countsOf_eq_nil.mp ?_) cpu
      rw [h.countsOf_eq hv, if_neg]
      simpa using fun hc => hne hc.symm

end ScxFlow
