import ScxFlow.Proofs.Custody
import ScxFlow.Proofs.RunClaim
import ScxFlow.Proofs.Stranded
import ScxFlow.Proofs.TaskRanges
import ScxFlow.Proofs.Tells
import ScxFlow.Proofs.Wait
import Mathlib.Algebra.BigOperators.Group.Finset.Piecewise
import Mathlib.Algebra.Order.BigOperators.Group.Finset

/-!
# No service but from the clock

A stop charges the time since the start it takes, and a start is taken once.  So whatever the order
of the turns, a task is charged no more service than the clock gave (`run_runtime`); where the
kernel seats one task at a time on a CPU, neither is a CPU, and the page never reports more runtime
than its CPUs have (`run_runtime_page`).
-/

namespace ScxFlow

variable {w : World} {k : Kernel} {p : TaskRef}

section RunClock

/-- The clock after a turn: that of the call, where the turn is one. -/
def Turn.clock (now : UInt64) (t : Turn) : UInt64 := (t.view.map Kernel.now).getD now

/-- The core with the clock of its last turn. -/
def timed : Machine RunState Turn Unit where
  step s t := ⟨core.step s.world t, t.clock s.clock⟩
  out _ _ := []

/-- The clock does not run back. -/
def Ticks (s : RunState) (t : Turn) : Prop := s.clock ≤ t.clock s.clock

instance (s : RunState) (t : Turn) : Decidable (Ticks s t) :=
  inferInstanceAs (Decidable (_ ≤ _))

/-- The time that a turn lets pass. -/
def passed (s : RunState) (t : Turn) : ℕ := (t.clock s.clock).toNat - s.clock.toNat

/-- What a turn charges. -/
def runtimeOf (w : World) (t : Turn) : ℕ := ((takesOf (turnEffects w t)).map UInt64.toNat).sum

/-- A turn stops the task. -/
def Turn.stops (p : TaskRef) : Turn → Bool
  | .call ⟨_, .stopping q _⟩ => decide (q = p)
  | _ => false

/-- What a turn charges to a task. -/
def chargedTo (p : TaskRef) (s : RunState) (t : Turn) : ℕ :=
  if t.stops p then runtimeOf s.world t else 0

/-- What a stop at this clock would charge to the task. -/
def pending (p : TaskRef) (s : RunState) : ℕ :=
  (flowStopDelta s.clock (runAtOf (s.world.taskCtx p))).toNat

end RunClock

section ClockedSegment

theorem flowStopDelta_eq (now start : UInt64) : (flowStopDelta now start).toNat
    = if start ≠ 0 ∧ (now - start).toNat ≤ 5000000000 then (now - start).toNat else 0 := by
  have hgap (d : UInt64) : flowGapIsResume d = true ↔ 5000000000 < d.toNat := by
    unfold flowGapIsResume
    rw [decide_eq_true_iff, gt_iff_lt, UInt64.lt_iff_toNat_lt]
    rfl
  by_cases h0 : start = 0
  · simp [flowStopDelta, flowDeltaClamp, h0]
  rcases hb : flowTimeBefore now start with _ | _
  · have hclamp : flowDeltaClamp now start = now - start := by simp [flowDeltaClamp, h0, hb]
    unfold flowStopDelta
    simp only [hclamp, hgap]
    by_cases hle : (now - start).toNat ≤ 5000000000
    · rw [if_neg (by omega), if_pos ⟨h0, hle⟩]
    · rw [if_pos (by omega), if_neg fun h => hle h.2]
      rfl
  · have hfar : 2 ^ 63 ≤ (now - start).toNat := flowTimeBefore_iff_sub.mp hb
    rw [if_neg fun h => absurd h.2 (by omega)]
    simp [flowStopDelta, flowDeltaClamp, hb]

/-- Later, a stop would charge at most the time that passed on top. -/
theorem flowStopDelta_le_add {now now' : UInt64} (h : now ≤ now') (start : UInt64) :
    (flowStopDelta now' start).toNat
      ≤ (flowStopDelta now start).toNat + (now'.toNat - now.toNat) := by
  have hle : now.toNat ≤ now'.toNat := UInt64.le_iff_toNat_le.mp h
  have hword := And.intro now.toNat_lt (And.intro now'.toNat_lt start.toNat_lt)
  rw [flowStopDelta_eq, flowStopDelta_eq]
  by_cases h0 : start = 0
  · rw [if_neg fun h => h.1 h0]
    exact Nat.zero_le _
  simp only [ne_eq, h0, not_false_eq_true, true_and, UInt64.toNat_sub]
  split_ifs
  · omega
  · omega
  · omega
  · omega

/-- A start is claimed with nothing to charge. -/
theorem flowStopDelta_stamp (now : UInt64) : (flowStopDelta now (flowRunStamp now)).toNat = 0 := by
  rw [flowStopDelta_eq]
  unfold flowRunStamp
  by_cases h : now = 0 ∨ now = u64Max
  · rw [if_pos h]
    rcases h with rfl | rfl
    · decide
    · decide
  · rw [if_neg h, UInt64.sub_self]
    exact ite_self 0

theorem flowStopDelta_zero (now : UInt64) : (flowStopDelta now 0).toNat = 0 := by
  rw [flowStopDelta_eq, if_neg fun h => h.1 rfl]

end ClockedSegment

section Start

/-- The storage an enqueue leaves. -/
inductive EnqueueLeaves (w : World) (k : Kernel) (p : TaskRef) (enqFlags : UInt64) :
    Option FlowTaskCtx → Prop
  | same : EnqueueLeaves w k p enqFlags (w.taskCtx p)
  | stamped {t : FlowTaskCtx} (ht : w.taskCtx p = some t) :
    EnqueueLeaves w k p enqFlags (some { t with waitAt := k.now })
  | homeless {t : FlowTaskCtx} (hget : flowGet w k p = some t) :
    EnqueueLeaves w k p enqFlags (some { flowEnqueueDefaults t with waitAt := k.now })
  | waits {t t' : FlowTaskCtx} (hget : flowGet w k p = some t)
    (h : WaitStores w k p enqFlags t t') : EnqueueLeaves w k p enqFlags (some t')

theorem flowEnqueue_leaves (w : World) (k : Kernel) (p : TaskRef) (enqFlags : UInt64) :
    EnqueueLeaves w k p enqFlags (flowEnqueue w k p enqFlags).ctx := by
  have hmiss : EnqueueLeaves w k p enqFlags (flowEnqueueGateMiss w k p enqFlags).ctx := by
    rw [flowEnqueueGateMiss_ctx]
    rcases ht : w.taskCtx p with _ | t
    · rw [Option.map_none, ← ht]
      exact .same
    · exact .stamped ht
  rcases hget : flowGet w k p with _ | t
  · have hnone := taskCtx_of_flowGet_none hget
    unfold flowEnqueue
    simp only
    split
    · exact .same
    split
    · exact hmiss
    · simp only [hget]
      rw [flowEnqueueNoState_ctx, ← hnone]
      exact .same
  · rcases htests : enqueueTests w k p enqFlags with _ | t₀
    · rcases flowEnqueue_untested hget htests with ⟨es, -, heq⟩ | heq | heq
      · rw [heq]
        exact .same
      · rw [heq]
        exact hmiss
      · rw [heq]
        exact .homeless hget
    · obtain rfl := eq_of_enqueueTests hget htests
      obtain ⟨t', hctx, hstores, -⟩ := flowEnqueue_waits htests
      rw [hctx]
      exact .waits hget hstores

/-- An enqueue keeps the start, and creates a storage with none. -/
theorem flowEnqueue_runAt (w : World) (k : Kernel) (p : TaskRef) (enqFlags : UInt64) :
    runAtOf (flowEnqueue w k p enqFlags).ctx = runAtOf (w.taskCtx p) := by
  have hget {t : FlowTaskCtx} (h : flowGet w k p = some t) : t.runAt = runAtOf (w.taskCtx p) := by
    rcases flowGet_some h with hs | ⟨hs, rfl⟩
    · rw [hs]
      rfl
    · rw [hs]
      rfl
  have hleaves := flowEnqueue_leaves w k p enqFlags
  generalize (flowEnqueue w k p enqFlags).ctx = ctx at hleaves
  cases hleaves with
  | same => rfl
  | stamped ht =>
    rw [ht]
    rfl
  | homeless h =>
    have hstored := hget h
    exact hstored
  | waits h hstores => exact hstores.runAt.trans (hget h)

theorem seedTopoWith_taskCtx (w : World) (rows : List TopoRow) :
    (seedTopoWith w rows).taskCtx = w.taskCtx :=
  List.foldl_observe World.taskCtx w fun w row _ => by
    split
    · rfl
    · rfl

theorem select_taskCtx (w : World) (k : Kernel) (es : List SelectEffect) :
    (w.select k es).taskCtx = w.taskCtx :=
  List.foldl_observe World.taskCtx w fun w e _ => by
    split
    · rfl
    · rw [flowCount_eq]

/-- What a turn does to the start of a task. -/
inductive StartTurn (p : TaskRef) (w : World) (t : Turn) : Prop
  | keeps (hr : runAtOf ((core.step w t).taskCtx p) = runAtOf (w.taskCtx p)
      ∨ runAtOf ((core.step w t).taskCtx p) = 0)
    (hc : t.stops p = true → runtimeOf w t = 0)
  | claims {k : Kernel} (ht : t = .call ⟨k, .running p⟩)
    (hr : runAtOf ((core.step w t).taskCtx p) = flowRunStamp k.now)
  | takes {k : Kernel} {runnable : Bool} (ht : t = .call ⟨k, .stopping p runnable⟩)
    (hr : runAtOf ((core.step w t).taskCtx p) = 0)
    (hc : runtimeOf w t = (flowStopDelta k.now (runAtOf (w.taskCtx p))).toNat)

theorem startTurn_running (w : World) (k : Kernel) (p : TaskRef) :
    StartTurn p w (.call ⟨k, .running p⟩) := by
  cases runStep_running (p := p) (w := w) (k := k) with
  | quiet hr ho => exact .keeps hr fun hs => nomatch hs
  | claim h0 hr ho => exact .claims rfl hr
  | stop hr ho => exact .keeps (Or.inr hr) fun hs => nomatch hs
  | charge h0 hr ho => exact .keeps (Or.inr hr) fun hs => nomatch hs

theorem startTurn_stopping (w : World) (k : Kernel) (p : TaskRef) (runnable : Bool) :
    StartTurn p w (.call ⟨k, .stopping p runnable⟩) := by
  have hctx : (core.step w (.call ⟨k, .stopping p runnable⟩)).taskCtx p
      = (flowStopping w k p runnable).ctx := by
    show (w.step ⟨k, .stopping p runnable⟩).taskCtx p = _
    rw [World.step_onTask rfl, commit_taskCtx, Function.update_self]
  have heff : runtimeOf w (.call ⟨k, .stopping p runnable⟩)
      = ((takesOf (flowStopping w k p runnable).eff).map UInt64.toNat).sum := rfl
  rcases flowStopping_cases w k p runnable with ⟨-, -, heq⟩ | ⟨-, -, -, heq⟩ |
    ⟨t, t', es, -, -, ht, -, heq, hstop, hes⟩
  · refine .keeps (Or.inl ?_) fun _ => ?_
    · rw [hctx, heq]
    · rw [heff, heq]
      rfl
  · refine .keeps (Or.inl ?_) fun _ => ?_
    · rw [hctx, heq]
    · rw [heff, heq]
      rfl
  · obtain ⟨-, htakes, -, -⟩ := hes.tells (c := .kicks)
    refine .takes rfl ?_ ?_
    · rw [hctx, heq]
      exact hstop.runAt
    · rw [heff, heq, ht]
      show (flowStopDelta k.now t.runAt).toNat + ((takesOf es).map UInt64.toNat).sum = _
      rw [htakes]
      rfl

theorem startTurn (w : World) (t : Turn) (p : TaskRef) : StartTurn p w t := by
  have hsame {t : Turn} (h : (core.step w t).taskCtx = w.taskCtx)
      (hs : t.stops p = false) : StartTurn p w t :=
    .keeps (Or.inl (by rw [h])) fun hstop => by rw [hs] at hstop; cases hstop
  cases t with
  | call c =>
    obtain ⟨k, op⟩ := c
    by_cases hrun : op = .running p
    · subst hrun
      exact startTurn_running w k p
    by_cases hstop : ∃ runnable, op = .stopping p runnable
    · obtain ⟨runnable, rfl⟩ := hstop
      exact startTurn_stopping w k p runnable
    have hstops : Turn.stops p (.call ⟨k, op⟩) = false := by
      cases op with
      | stopping q runnable => exact decide_eq_false fun hq => hstop ⟨runnable, by rw [hq]⟩
      | _ => rfl
    refine .keeps ?_ fun hs => by rw [hstops] at hs; cases hs
    refine step_storage (P := fun c => runAtOf c = runAtOf (w.taskCtx p) ∨ runAtOf c = 0) ⟨k, op⟩
      (Or.inl rfl) (fun enqFlags _ => Or.inl (flowEnqueue_runAt w k p enqFlags))
      (fun h => absurd h hrun) (fun runnable h => absurd ⟨runnable, h⟩ hstop)
      (fun _ => flowEnable_runAt w k p) fun weight _ => ?_
    rw [flowSetWeight_taskCtx, Function.update_self]
    rcases w.taskCtx p with _ | t
    · exact Or.inl rfl
    · exact Or.inl rfl
  | select k cap q prevCpu => exact hsame (select_taskCtx w k _) rfl
  | seed rows => exact hsame (seedTopoWith_taskCtx w rows) rfl
  | pick cpu => exact hsame rfl rfl
  | dequeue q dsq => exact hsame rfl rfl

end Start

section Service

/-- A turn charges a task out of what was pending and the time that passed. -/
theorem pending_step {s : RunState} {t : Turn} (h : Ticks s t) :
    pending p (timed.step s t) + chargedTo p s t ≤ pending p s + passed s t := by
  have hlater := flowStopDelta_le_add h (runAtOf (s.world.taskCtx p))
  have hzero := flowStopDelta_zero (t.clock s.clock)
  unfold pending chargedTo passed
  show (flowStopDelta (t.clock s.clock) (runAtOf ((core.step s.world t).taskCtx p))).toNat + _ ≤ _
  cases startTurn s.world t p with
  | keeps hr hc =>
    have hnone : (if t.stops p = true then runtimeOf s.world t else 0) = 0 := by
      split
      · rename_i hs
        exact hc hs
      · rfl
    rw [hnone]
    rcases hr with hr | hr
    · rw [hr]
      exact hlater
    · rw [hr, hzero]
      exact Nat.zero_le _
  | @claims k ht hr =>
    subst ht
    rw [hr]
    show (flowStopDelta k.now (flowRunStamp k.now)).toNat + 0 ≤ _
    rw [flowStopDelta_stamp]
    exact Nat.zero_le _
  | @takes k runnable ht hr hc =>
    subst ht
    rw [hr, hzero, Nat.zero_add]
    split
    · rw [hc]
      exact hlater
    · exact Nat.zero_le _

theorem total_passed {ts : List Turn} {s : RunState} (h : timed.Along Ticks s ts) :
    (timed.exec s ts).clock.toNat = s.clock.toNat + timed.total passed s ts := by
  have hrun := Machine.balance (M := timed) (I := fun _ => True) (φ := fun s => s.clock.toNat)
    (f := fun _ _ => 0) (g := passed) (fun _ _ _ _ => trivial)
    (fun s t (ht : Ticks s t) _ => by
      have hle : s.clock.toNat ≤ (t.clock s.clock).toNat := UInt64.le_iff_toNat_le.mp ht
      show (t.clock s.clock).toNat + 0 = s.clock.toNat + ((t.clock s.clock).toNat - _)
      omega) h trivial
  rwa [timed.total_zero, Nat.add_zero] at hrun

/-- Over every run whose clock does not run back, the service charged to a task and what is pending
at the end come to at most what was pending at the start and the time that passed. -/
theorem run_runtime (p : TaskRef) (s : RunState) (ts : List Turn) (h : timed.Along Ticks s ts) :
    pending p (timed.exec s ts) + timed.total (chargedTo p) s ts
      ≤ pending p s + ((timed.exec s ts).clock.toNat - s.clock.toNat) := by
  have hrun := Machine.amortized (M := timed) (I := fun _ => True) (φ := pending p)
    (f := chargedTo p) (g := passed) (fun _ _ _ _ => trivial)
    (fun _ _ ht _ _ => pending_step ht) h trivial le_rfl
  have hclock := total_passed h
  omega

theorem run_runtime_reclaimsOne : let s : RunState := ⟨World.boot 2 1 fun _ => 0, 1000⟩
    pending 0 (timed.exec s reclaimsOne) + timed.total (chargedTo 0) s reclaimsOne
      ≤ pending 0 s + ((timed.exec s reclaimsOne).clock.toNat - s.clock.toNat) :=
  run_runtime 0 ⟨World.boot 2 1 fun _ => 0, 1000⟩ reclaimsOne (by decide +kernel)

end Service

section Cpus

/-- A run with the task seated on each CPU. -/
structure Paced where
  run : RunState
  on : ℕ → Option TaskRef

/-- A task is seated by its running and unseated by its stop. -/
def seatTask (on : ℕ → Option TaskRef) : Turn → ℕ → Option TaskRef
  | .call ⟨k, .running p⟩ => Function.update on (k.task p).taskCpu.toNat (some p)
  | .call ⟨k, .stopping p _⟩ => Function.update on (k.task p).taskCpu.toNat none
  | _ => on

def paced : Machine Paced Turn Unit where
  step s t := ⟨timed.step s.run t, seatTask s.on t⟩
  out _ _ := []

/-- A task on no CPU starts on a free one, and it stops where it runs, past the gate unless it has no
start claimed. -/
def Paces (s : Paced) : Turn → Prop
  | .call ⟨k, .running p⟩ =>
    s.on (k.task p).taskCpu.toNat = none ∧ ∀ cpu, s.on cpu ≠ some p
  | .call ⟨k, .stopping p _⟩ =>
    0 ≤ (k.task p).taskCpu ∧ s.on (k.task p).taskCpu.toNat = some p
      ∧ (flowEntryOk s.run.world (k.task p) (k.task p).taskCpu 0 = true
        ∨ runAtOf (s.run.world.taskCtx p) = 0)
  | _ => True

/-- A turn stops a task on the CPU. -/
def Turn.stopsOn (cpu : ℕ) : Turn → Bool
  | .call ⟨k, .stopping p _⟩ => decide ((k.task p).taskCpu.toNat = cpu)
  | _ => false

/-- What a turn charges on a CPU. -/
def chargedOn (cpu : ℕ) (s : Paced) (t : Turn) : ℕ :=
  if t.stopsOn cpu then runtimeOf s.run.world t else 0

/-- What a stop of the task seated on a CPU would charge. -/
def pendingOn (cpu : ℕ) (s : Paced) : ℕ :=
  match s.on cpu with
  | some p => pending p s.run
  | none => 0

/-- Only a seated task has a start, and no task is seated twice. -/
structure SeatedOnce (s : Paced) : Prop where
  claimed : ∀ p, runAtOf (s.run.world.taskCtx p) ≠ 0 → ∃ cpu, s.on cpu = some p
  once : ∀ p cpu cpu', s.on cpu = some p → s.on cpu' = some p → cpu = cpu'

/-- What a turn does to the seats. -/
inductive SeatTurn (on : ℕ → Option TaskRef) : Turn → (ℕ → Option TaskRef) → Prop
  | seats (k : Kernel) (p : TaskRef) : SeatTurn on (.call ⟨k, .running p⟩)
    (Function.update on (k.task p).taskCpu.toNat (some p))
  | unseats (k : Kernel) (p : TaskRef) (runnable : Bool) :
    SeatTurn on (.call ⟨k, .stopping p runnable⟩)
      (Function.update on (k.task p).taskCpu.toNat none)
  | keeps {t : Turn} (hrun : ∀ k p, t ≠ .call ⟨k, .running p⟩)
    (hstop : ∀ k p runnable, t ≠ .call ⟨k, .stopping p runnable⟩) : SeatTurn on t on

theorem seatTurn (on : ℕ → Option TaskRef) (t : Turn) : SeatTurn on t (seatTask on t) := by
  cases t with
  | call c =>
    obtain ⟨k, op⟩ := c
    cases op with
    | running p => exact .seats k p
    | stopping p runnable => exact .unseats k p runnable
    | _ => exact .keeps (fun _ _ h => nomatch h) fun _ _ _ h => nomatch h
  | _ => exact .keeps (fun _ _ h => nomatch h) fun _ _ _ h => nomatch h

theorem Turn.stopsOn_eq_false {t : Turn} (h : ∀ k p runnable, t ≠ .call ⟨k, .stopping p runnable⟩)
    (cpu : ℕ) : t.stopsOn cpu = false := by
  cases t with
  | call c =>
    obtain ⟨k, op⟩ := c
    cases op with
    | stopping p runnable => exact absurd rfl (h k p runnable)
    | _ => rfl
  | _ => rfl

/-- A stop leaves no start of a task that is past the gate, or had none. -/
theorem start_of_paced {s : RunState} {k : Kernel} {p : TaskRef} {runnable : Bool}
    (h : flowEntryOk s.world (k.task p) (k.task p).taskCpu 0 = true
      ∨ runAtOf (s.world.taskCtx p) = 0) :
    runAtOf ((timed.step s (.call ⟨k, .stopping p runnable⟩)).world.taskCtx p) = 0 := by
  rcases h with hgate | hnone
  · exact start_of_stopPasses (c := ⟨k, .stopping p runnable⟩) (by simp [stopPasses, hgate])
  · cases startTurn s.world (.call ⟨k, .stopping p runnable⟩) p with
    | keeps hr hc => exact hr.elim (fun hr => hr.trans hnone) fun hr => hr
    | claims ht hr => cases ht
    | takes ht hr hc => exact hr

theorem SeatedOnce.step {s : Paced} {t : Turn} (ht : Paces s t) (h : SeatedOnce s) :
    SeatedOnce (paced.step s t) := by
  have hclaim (q : TaskRef) (hq : runAtOf ((paced.step s t).run.world.taskCtx q) ≠ 0) :
      (∃ cpu, s.on cpu = some q) ∨ ∃ k, t = .call ⟨k, .running q⟩ := by
    cases startTurn s.run.world t q with
    | keeps hr hc =>
      rcases hr with hr | hr
      · exact Or.inl (h.claimed q fun hz => hq (hr.trans hz))
      · exact absurd hr hq
    | claims ht hr => exact Or.inr ⟨_, ht⟩
    | takes ht hr hc => exact absurd hr hq
  have hseat : SeatTurn s.on t (paced.step s t).on := seatTurn s.on t
  generalize hs' : paced.step s t = s' at hclaim hseat ⊢
  generalize hon : s'.on = on at hseat
  cases hseat with
  | seats k p =>
    obtain ⟨hfree, hoff⟩ := ht
    refine ⟨fun q hq => ?_, fun q cpu cpu' hc hc' => ?_⟩
    · rw [hon]
      rcases hclaim q hq with ⟨cpu, hcpu⟩ | ⟨k', hk⟩
      · refine ⟨cpu, ?_⟩
        rw [Function.update_of_ne, hcpu]
        rintro rfl
        rw [hfree] at hcpu
        cases hcpu
      · cases hk
        exact ⟨_, Function.update_self _ _ _⟩
    · rw [hon, Function.update_apply] at hc hc'
      split at hc
      · cases hc
        split at hc'
        · omega
        · exact absurd hc' (hoff cpu')
      · split at hc'
        · cases hc'
          exact absurd hc (hoff cpu)
        · exact h.once q cpu cpu' hc hc'
  | unseats k p runnable =>
    obtain ⟨h0, hseated, hgate⟩ := ht
    refine ⟨fun q hq => ?_, fun q cpu cpu' hc hc' => ?_⟩
    · rw [hon]
      rcases hclaim q hq with ⟨cpu, hcpu⟩ | ⟨k', hk⟩
      · refine ⟨cpu, ?_⟩
        rw [Function.update_of_ne, hcpu]
        rintro rfl
        obtain rfl : p = q := Option.some.inj (hseated.symm.trans hcpu)
        rw [← hs'] at hq
        exact hq (start_of_paced hgate)
      · cases hk
    · rw [hon, Function.update_apply] at hc hc'
      split at hc
      · cases hc
      · split at hc'
        · cases hc'
        · exact h.once q cpu cpu' hc hc'
  | keeps hrun hstop =>
    refine ⟨fun q hq => ?_, ?_⟩
    · rw [hon]
      rcases hclaim q hq with hcpu | ⟨k', hk⟩
      · exact hcpu
      · exact absurd hk (hrun k' q)
    · rw [hon]
      exact h.once

theorem pendingOn_step {s : Paced} {t : Turn} (hclock : Ticks s.run t) (ht : Paces s t)
    (h : SeatedOnce s) (cpu : ℕ) :
    pendingOn cpu (paced.step s t) + chargedOn cpu s t ≤ pendingOn cpu s + passed s.run t := by
  have hkeep (hcharge : t.stopsOn cpu = false) (hon : (paced.step s t).on cpu = s.on cpu) :
      pendingOn cpu (paced.step s t) + chargedOn cpu s t ≤ pendingOn cpu s + passed s.run t := by
    unfold pendingOn chargedOn
    rw [hon, hcharge, if_neg Bool.false_ne_true, Nat.add_zero]
    cases s.on cpu with
    | none => exact Nat.zero_le _
    | some p => exact (Nat.le_add_right _ _).trans (pending_step hclock)
  have hseat : SeatTurn s.on t (paced.step s t).on := seatTurn s.on t
  generalize hs' : paced.step s t = s' at hkeep hseat ⊢
  generalize hon : s'.on = on at hkeep hseat
  cases hseat with
  | seats k p =>
    obtain ⟨hfree, hoff⟩ := ht
    by_cases hc : cpu = (k.task p).taskCpu.toNat
    · subst hc
      have hidle : runAtOf (s.run.world.taskCtx p) = 0 := by
        by_contra hr
        obtain ⟨c, hseated⟩ := h.claimed p hr
        exact hoff c hseated
      have hpend : pending p s.run = 0 := by
        unfold pending
        rw [hidle]
        exact flowStopDelta_zero _
      have hstep := pending_step (p := p) hclock
      unfold pendingOn chargedOn
      rw [hon, Function.update_self, hfree, ← hs']
      show pending p (timed.step s.run _) + 0 ≤ 0 + _
      omega
    · exact hkeep rfl (Function.update_of_ne hc _ _)
  | unseats k p runnable =>
    obtain ⟨h0, hseated, hgate⟩ := ht
    by_cases hc : cpu = (k.task p).taskCpu.toNat
    · subst hc
      have hstep := pending_step (p := p) hclock
      have hcharge : chargedOn (k.task p).taskCpu.toNat s (.call ⟨k, .stopping p runnable⟩)
          = chargedTo p s.run (.call ⟨k, .stopping p runnable⟩) := by
        unfold chargedOn chargedTo
        rw [Turn.stopsOn, Turn.stops, decide_eq_true rfl, decide_eq_true rfl]
      unfold pendingOn
      rw [hon, Function.update_self, hseated, hcharge]
      show 0 + _ ≤ pending p s.run + _
      omega
    · exact hkeep (decide_eq_false (Ne.symm hc)) (Function.update_of_ne hc _ _)
  | keeps hrun hstop => exact hkeep (Turn.stopsOn_eq_false hstop cpu) rfl

/-- The service that a turn charges is charged on one CPU of the scheduler. -/
theorem runtimeOf_cpus {s : Paced} {t : Turn} (ht : Paces s t) : runtimeOf s.run.world t
    = ∑ cpu ∈ Finset.range s.run.world.nrCpuIds, chargedOn cpu s t := by
  have hsegments := (turn_tells s.run.world t).segments
  by_cases hzero : runtimeOf s.run.world t = 0
  · rw [hzero]
    refine (Finset.sum_eq_zero fun cpu _ => ?_).symm
    unfold chargedOn
    rw [hzero]
    exact ite_self 0
  obtain ⟨k, p, runnable, rfl⟩ : ∃ k p runnable, t = .call ⟨k, .stopping p runnable⟩ := by
    by_contra hstop
    have hended (r : Bool) : ended r s.run.world t = 0 := by
      cases t with
      | call c =>
        obtain ⟨k, op⟩ := c
        cases op with
        | stopping p runnable => exact absurd ⟨k, p, runnable, rfl⟩ hstop
        | _ => rfl
      | _ => rfl
    rw [hended, hended] at hsegments
    unfold runtimeOf at hzero
    rw [List.eq_nil_of_length_eq_zero hsegments] at hzero
    exact hzero rfl
  obtain ⟨h0, -, -⟩ := ht
  have hlive : (k.task p).taskCpu.toNat < s.run.world.nrCpuIds := by
    rcases flowStopping_cases s.run.world k p runnable with ⟨-, -, heq⟩ | ⟨hgate, -⟩ |
      ⟨t, t', es, hgate, -⟩
    · refine absurd ?_ hzero
      show ((takesOf (flowStopping s.run.world k p runnable).eff).map UInt64.toNat).sum = 0
      rw [heq]
      rfl
    · exact (flowCpuLive_iff.mp (flowCpuLive_of_entryOk (Int.toNat_of_nonneg h0).symm hgate)).1
    · exact (flowCpuLive_iff.mp (flowCpuLive_of_entryOk (Int.toNat_of_nonneg h0).symm hgate)).1
  have hone (cpu : ℕ) : chargedOn cpu s (.call ⟨k, .stopping p runnable⟩)
      = if (k.task p).taskCpu.toNat = cpu
        then runtimeOf s.run.world (.call ⟨k, .stopping p runnable⟩) else 0 := by
    unfold chargedOn Turn.stopsOn
    exact if_congr decide_eq_true_iff rfl rfl
  simp only [hone]
  rw [Finset.sum_ite_eq, if_pos (Finset.mem_range.mpr hlive)]

theorem paced_timed (s : Paced) (t : Turn) : (paced.step s t).run = timed.step s.run t := rfl

/-- A clock that does not run back, and a kernel that seats its tasks one by one. -/
def Seating (s : Paced) (t : Turn) : Prop := Ticks s.run t ∧ Paces s t

/-- Over every run in which the kernel seats its tasks so, the service charged on a CPU and what is
pending there at the end come to at most what was pending there and the time that passed. -/
theorem run_runtime_cpu {s : Paced} {ts : List Turn} (hs : SeatedOnce s)
    (h : paced.Along Seating s ts) (cpu : ℕ) :
    pendingOn cpu (paced.exec s ts) + paced.total (chargedOn cpu) s ts
      ≤ pendingOn cpu s + ((timed.exec s.run ts).clock.toNat - s.run.clock.toNat) := by
  have hrun := Machine.amortized (M := paced) (I := SeatedOnce) (φ := pendingOn cpu)
    (f := chargedOn cpu) (g := fun s t => passed s.run t)
    (fun _ _ ht hi => hi.step ht.2) (fun _ _ ht hi _ => pendingOn_step ht.1 ht.2 hi cpu) h hs le_rfl
  have hclock := total_passed (Machine.along_carried paced_timed
    (Machine.Along.mono (fun _ _ ht => ht.1) h))
  rw [Machine.total_carried paced_timed] at hrun
  omega

/-- The service charged along a run is what is charged on the CPUs of the scheduler. -/
theorem total_cpus {n : ℕ} {ts : List Turn} {s : Paced} (hn : s.run.world.nrCpuIds = n)
    (h : paced.Along Seating s ts) : core.total runtimeOf s.run.world ts
      = ∑ cpu ∈ Finset.range n, paced.total (chargedOn cpu) s ts := by
  induction ts generalizing s with
  | nil => exact Finset.sum_const_zero.symm
  | cons t ts ih =>
    have hcounts : (paced.step s t).run.world.nrCpuIds = n :=
      (Prod.mk.inj (turn_counts s.run.world t)).1.trans hn
    have hrest : core.total runtimeOf (core.step s.run.world t) ts
        = ∑ cpu ∈ Finset.range n, paced.total (chargedOn cpu) (paced.step s t) ts := ih hcounts h.2
    simp only [Machine.total_cons]
    rw [runtimeOf_cpus h.1.2, hrest, Finset.sum_add_distrib, hn]

/-- From boot on, where the kernel seats its tasks one by one and the clock does not run back, no CPU
is charged more service than the time that passed, and the runtime that a poll reports is at most that
time on every CPU. -/
theorem run_runtime_page (nrCpuIds nrNodeIds : ℕ) (topoNode : ℕ → ℕ) (now : UInt64)
    (sched : Scheduler) (ts : List Turn) (elapsed : ℕ) :
    let w := World.boot nrCpuIds nrNodeIds topoNode
    let s : Paced := ⟨⟨w, now⟩, fun _ => none⟩
    let time := (timed.exec s.run ts).clock.toNat - now.toNat
    core.Along (ExecutesOn sched.onlineCpus) w ts → paced.Along Seating s ts →
      (∀ cpu, paced.total (chargedOn cpu) s ts ≤ time)
        ∧ ((getMetrics (core.exec w ts) sched elapsed).counters .totalRuntime).toNat
          ≤ nrCpuIds * time := by
  intro w s time hon hseat
  have hfree : SeatedOnce s := ⟨fun p hp => absurd rfl hp, fun p cpu cpu' hc _ => nomatch hc⟩
  have hcpu (cpu : ℕ) : paced.total (chargedOn cpu) s ts ≤ time := by
    have hrun := run_runtime_cpu hfree hseat cpu
    have hnone : pendingOn cpu s = 0 := rfl
    rw [hnone, Nat.zero_add] at hrun
    exact (Nat.le_add_left _ _).trans hrun
  refine ⟨hcpu, ?_⟩
  have htotal : core.total runtimeOf w ts ≤ nrCpuIds * time := by
    have hcpus : core.total runtimeOf w ts
        = ∑ cpu ∈ Finset.range nrCpuIds, paced.total (chargedOn cpu) s ts := total_cpus rfl hseat
    have hle := Finset.sum_le_card_nsmul (Finset.range nrCpuIds)
      (fun cpu => paced.total (chargedOn cpu) s ts) time fun cpu _ => hcpu cpu
    rw [Finset.card_range, nsmul_eq_mul, Nat.cast_id] at hle
    exact hcpus.le.trans hle
  have hcounts : core.total (fun w t => amountOf .totalRuntime (turnEffects w t)) w ts
      = core.total runtimeOf w ts :=
    core.total_ext (fun w t => (turn_tells w t).runtime) w ts
  by_cases hroom : core.total (fun w t => amountOf .totalRuntime (turnEffects w t)) w ts < 2 ^ 64
  · rw [getMetrics_run nrCpuIds nrNodeIds topoNode sched ts elapsed hon hroom, hcounts]
    exact htotal
  · -- the page saturates below what was charged
    have hword := ((getMetrics (core.exec w ts) sched elapsed).counters .totalRuntime).toNat_lt
    omega

/-- A wakeup on idle CPU 0, which finds no more in a pass, picks it and runs it to its end. -/
def wakeToEnd : List Turn :=
  [.call ⟨Kernel.plain 1000, .enqueue 1 0⟩, .call ⟨Kernel.plain 2000, .dispatch 0⟩, .pick 0,
    .call ⟨Kernel.plain 3000, .running 1⟩, .call ⟨Kernel.plain 9000, .stopping 1 false⟩]

theorem run_runtime_page_wakeToEnd :
    let w := World.boot 2 1 fun _ => 0
    let s : Paced := ⟨⟨w, 1000⟩, fun _ => none⟩
    let time := (timed.exec s.run wakeToEnd).clock.toNat - 1000
    (∀ cpu, paced.total (chargedOn cpu) s wakeToEnd ≤ time)
      ∧ ((getMetrics (core.exec w wakeToEnd) Scheduler.pair 5).counters .totalRuntime).toNat
        ≤ 2 * time :=
  run_runtime_page 2 1 (fun _ => 0) 1000 Scheduler.pair wakeToEnd 5 (by decide +kernel)
    ⟨⟨by decide +kernel, trivial⟩, ⟨by decide +kernel, trivial⟩, ⟨by decide +kernel, trivial⟩,
      ⟨by decide +kernel, rfl, fun _ h => nomatch h⟩,
      ⟨by decide +kernel, by decide, rfl, Or.inl (by decide +kernel)⟩, trivial⟩

end Cpus

end ScxFlow
