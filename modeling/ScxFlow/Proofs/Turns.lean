import ScxFlow.Core
import ScxFlow.Proofs.Admission
import ScxFlow.Proofs.Conservation
import ScxFlow.Proofs.EnqueueLedger
import ScxFlow.Proofs.Segment

/-!
# What a turn does to the queues

Of all turns an enqueue alone adds an entry, a pass alone moves entries, and a pick and a dequeue
alone take entries off; every other turn leaves the queues as they were.  `turn_queues` says so once,
and what holds of the queues over runs is read from it.
-/

namespace ScxFlow

variable {w : World} {k : Kernel} {p : TaskRef}

section Pass

/-- One stage of a pass on some queue the scheduler created. -/
def OneStage (k : Kernel) (cpu : ℕ) (s s' : Pass) : Prop :=
  ∃ dsq new, dsq < scxDsqLocalOn ∧ Stage k cpu dsq s s' new

/-- A pass is a chain of stages. -/
abbrev Stages (k : Kernel) (cpu : ℕ) : Pass → Pass → Prop := Relation.ReflTransGen (OneStage k cpu)

theorem flowDispatchMoves_stages {cpu node : ℕ} (hc : cpu < flowMaxCpus) (hn : node < flowMaxNodes)
    (d : Depths) (fast : Bool) (s : Pass) : Stages k cpu s (flowDispatchMoves k cpu node d fast s) := by
  have hkinds := dsq_kinds hc hn
  obtain ⟨n1, hs1, -⟩ := flowDispatchLocal_stage (k := k) (s := s) hc d
  have h1 : Stages k cpu s (flowDispatchLocal k cpu d s) :=
    .single ⟨_, n1, by omega, hs1⟩
  unfold flowDispatchMoves
  simp only
  split
  · exact h1
  · unfold flowDispatchGeneral
    generalize flowDispatchLocal k cpu d s = s1 at *
    obtain ⟨n2, hs2, -⟩ := flowDispatchNodeTier_stage (k := k) cpu (s := s1) hn d
    obtain ⟨n3, hs3, -⟩ := flowDispatchMachine_stage (k := k) cpu
      (s := flowDispatchNodeTier k cpu node d s1) d
    obtain ⟨n4, hs4, -⟩ := flowDispatchReclaim_stage (k := k) cpu
      (s := flowDispatchMachine k cpu d (flowDispatchNodeTier k cpu node d s1)) d
    obtain ⟨peer, n5, -, hlt, hs5, -⟩ := flowDispatchSteal_stage (k := k) cpu
      (s := flowDispatchReclaim k cpu d
        (flowDispatchMachine k cpu d (flowDispatchNodeTier k cpu node d s1))) d
    have hpeer := (dsq_kinds hlt hn).1
    exact (((h1.tail ⟨_, n2, by omega, hs2⟩).tail ⟨_, n3, by omega, hs3⟩).tail
      ⟨_, n4, by omega, hs4⟩).tail ⟨_, n5, by omega, hs5⟩

/-- A dispatch of a live CPU leaves the queues its stages do. -/
theorem flowDispatch_stages {cpu : ℕ} (hl : flowCpuLive w cpu = true) :
    ∃ s, Stages k cpu (Pass.start w k.nrSlots) s ∧ (∃ Q, PassOk w k cpu Q s)
      ∧ s.log = (flowDispatchPass w k cpu true).log ∧ (flowDispatch w k cpu).dsq = s.world.dsq := by
  obtain ⟨hmax, hnode⟩ := And.intro (flowCpuLive_iff.mp hl).2 (flowDispatchNode_lt w cpu)
  unfold flowDispatch flowDispatchPass
  rw [if_neg (by omega)]
  simp only [Int.toNat_natCast, hl, Bool.not_true, Bool.false_eq_true, ↓reduceIte]
  rw [flowPerfUpdateHint_eq]
  split
  · exact ⟨_, .refl, ⟨_, PassOk.start w k cpu⟩, rfl, rfl⟩
  · rw [flowDispatchAccount_eq]
    obtain ⟨Q, hok, -⟩ := flowDispatchMoves_ok (w := w) (k := k) hmax hnode
      (flowDispatchDepths w cpu) true
    exact ⟨_, flowDispatchMoves_stages hmax hnode _ true _, ⟨Q, hok⟩, rfl, rfl⟩

/-- A dispatch of any other CPU moves nothing. -/
theorem flowDispatch_closed {cpu : ℤ} (h : cpu < 0 ∨ flowCpuLive w cpu.toNat = false) :
    (flowDispatch w k cpu).dsq = w.dsq := by
  unfold flowDispatch flowDispatchPass
  by_cases h0 : cpu < 0
  · rw [if_pos h0]
    rfl
  · rw [if_neg h0, h.resolve_left h0]
    simp only [Bool.not_false, ↓reduceIte, Pass.start]
    rw [flowCount_eq]

/-- A dispatch visits nothing, and only counts and sets levels, or has a live CPU and slots. -/
theorem flowDispatch_cases (w : World) (k : Kernel) (cpu : ℤ) :
    ((flowDispatchPass w k cpu true).log = []
        ∧ ∃ stats levels, flowDispatch w k cpu = { w with cpuStats := stats, perfLast := levels })
      ∨ ∃ c : ℕ, cpu = c ∧ flowCpuLive w c = true ∧ k.nrSlots ≠ 0 := by
  unfold flowDispatch flowDispatchPass
  by_cases h0 : cpu < 0
  · rw [if_pos h0]
    exact Or.inl ⟨rfl, w.cpuStats, w.perfLast, rfl⟩
  obtain ⟨c, rfl⟩ : ∃ c : ℕ, cpu = c := ⟨cpu.toNat, by omega⟩
  rw [if_neg h0, Int.toNat_natCast]
  rcases hl : flowCpuLive w c with _ | _
  · left
    simp only [Bool.not_false, ↓reduceIte, Pass.start]
    rw [flowCount_eq]
    exact ⟨trivial, _, _, rfl⟩
  by_cases hslots : k.nrSlots = 0
  · left
    simp only [hslots, Bool.not_true, Bool.false_eq_true, ↓reduceIte, Pass.start]
    rw [flowPerfUpdateHint_eq]
    exact ⟨trivial, _, _, rfl⟩
  · exact Or.inr ⟨c, rfl, hl, hslots⟩

/-- A pass writes no node, no storage of a task and no running PID. -/
theorem flowDispatch_rows (w : World) (k : Kernel) (cpu : ℤ) :
    (flowDispatch w k cpu).topoNode = w.topoNode ∧ (flowDispatch w k cpu).taskCtx = w.taskCtx
      ∧ ∀ c, ((flowDispatch w k cpu).cpuState c).runningPid = (w.cpuState c).runningPid := by
  rcases flowDispatch_cases w k cpu with ⟨-, stats, levels, hw⟩ | ⟨c, rfl, hl, hslots⟩
  · rw [hw]
    exact ⟨rfl, rfl, fun _ => rfl⟩
  · obtain ⟨stats, levels, hw⟩ := flowDispatch_world hl hslots
    obtain ⟨Q, hok, -⟩ := flowDispatchMoves_ok (w := w) (k := k) (flowCpuLive_iff.mp hl).2
      (flowDispatchNode_lt w c) (flowDispatchDepths w c) true
    rw [hw]
    exact ⟨hok.keeps.topoNode, hok.keeps.taskCtx, hok.keeps.owner⟩

end Pass

section TaskOps

/-- Only the enqueue of an op on a task inserts. -/
theorem onTask_quiet {op : Op} {o : OpOut} (h : op.onTask w k = some (p, o))
    (hop : ∀ q enqFlags, op ≠ .enqueue q enqFlags) : insertions o.eff = [] := by
  have hone (e : Effect) (ho : e.insertedTo = none) : insertions [e] = [] := by
    rw [insertions_eq_nil]
    simpa using ho
  cases op with
  | enqueue q enqFlags => exact absurd rfl (hop q enqFlags)
  | running q =>
    obtain ⟨rfl, rfl⟩ := Prod.mk.inj (Option.some.inj h)
    unfold flowRunning
    simp only
    split
    · rfl
    · rw [insertions_append, List.append_eq_nil_iff]
      constructor
      · rcases w.taskCtx q with _ | t
        · rfl
        · simp only
          split
          · rfl
          · rfl
      · split
        · rfl
        split
        · rfl
        · rfl
  | stopping q runnable =>
    obtain ⟨rfl, rfl⟩ := Prod.mk.inj (Option.some.inj h)
    unfold flowStopping
    simp only
    split
    · rfl
    · rcases w.taskCtx q with _ | t
      · rfl
      · simp only
        split
        · rfl
        · show insertions (flowStopSegment { t with runAt := 0 } (k.task q) t.runAt k.now
            runnable).eff = []
          unfold flowStopSegment
          simp only
          split
          · rw [insertions_append]
            split
            · rfl
            · rfl
          · simp only [insertions_append]
            repeat' split
            all_goals rfl
  | enable q =>
    obtain ⟨rfl, rfl⟩ := Prod.mk.inj (Option.some.inj h)
    unfold flowEnable
    simp only
    split
    · rfl
    · rcases flowGet w k q with _ | t
      · rfl
      · rfl
  | disable q =>
    obtain ⟨rfl, rfl⟩ := Prod.mk.inj (Option.some.inj h)
    unfold flowDisable
    simp only
    split
    · rfl
    · rfl
  | exitTask q =>
    obtain ⟨rfl, rfl⟩ := Prod.mk.inj (Option.some.inj h)
    rfl
  | _ => cases h

/-- An insertion reads the queues alone. -/
theorem perform_dsq_congr {w' : World} {e : Effect} {dsq : ℕ} (h : w'.dsq = w.dsq)
    (hd : e.insertedTo = some dsq) : (w'.perform k p e).dsq = (w.perform k p e).dsq := by
  cases e with
  | insertVtime d key flags =>
    show Function.update w'.dsq d (insertByKey ⟨p, key⟩ (w'.dsq d)) = _
    rw [h]
    rfl
  | insert d flags =>
    show Function.update w'.dsq d (w'.dsq d ++ [⟨p, 0⟩]) = _
    rw [h]
    rfl
  | _ => simp [Effect.insertedTo] at hd

/-- An insertion changes no other queue. -/
theorem perform_dsq_other {e : Effect} {dsq d : ℕ} (hi : e.insertedTo = some dsq) (hd : d ≠ dsq) :
    (w.perform k p e).dsq d = w.dsq d := by
  cases e with
  | insertVtime q key flags =>
    obtain rfl : q = dsq := Option.some.inj hi
    exact Function.update_of_ne hd _ _
  | insert q flags =>
    obtain rfl : q = dsq := Option.some.inj hi
    exact Function.update_of_ne hd _ _
  | _ => cases hi

/-- Effects with one insertion leave the queues as that insertion does. -/
theorem run_dsq_of_insertions {dsq : ℕ} : ∀ {es : List Effect} (w : World),
    insertions es = [dsq] → ∃ e ∈ es, e.insertedTo = some dsq
      ∧ (w.run k p es).dsq = (w.perform k p e).dsq
  | [], _, h => by simp [insertions] at h
  | e :: es, w, h => by
    rcases he : e.insertedTo with _ | d
    · have hes : insertions es = [dsq] := by simpa [insertions, he] using h
      obtain ⟨e', hmem, hd, heq⟩ := run_dsq_of_insertions (w.perform k p e) hes
      refine ⟨e', List.mem_cons_of_mem e hmem, hd, ?_⟩
      rw [run_cons, heq]
      exact perform_dsq_congr (perform_dsq w k p he) hd
    · have hd : d = dsq ∧ insertions es = [] := by simpa [insertions, he] using h
      obtain ⟨rfl, hes⟩ := hd
      refine ⟨e, List.mem_cons_self, he, ?_⟩
      rw [run_cons]
      exact run_dsq (w.perform k p e) k p (insertions_eq_nil.mp hes)

/-- An enqueue inserts its task once, by a key or at the tail. -/
theorem flowEnqueue_dsq (w : World) (k : Kernel) (p : TaskRef) (enqFlags : UInt64) :
    ∃ e ∈ (flowEnqueue w k p enqFlags).eff, ∃ dsq, e.insertedTo = some dsq
      ∧ insertions (flowEnqueue w k p enqFlags).eff = [dsq]
      ∧ (w.commit k p (flowEnqueue w k p enqFlags)).dsq = (w.perform k p e).dsq := by
  obtain ⟨dsq, c, h⟩ := flowEnqueue_shape w k p enqFlags
  obtain ⟨e, he, hd, heq⟩ := run_dsq_of_insertions (k := k) (p := p)
    { w with taskCtx := Function.update w.taskCtx p (flowEnqueue w k p enqFlags).ctx }
    h.insertions_eq
  refine ⟨e, he, dsq, hd, h.insertions_eq, ?_⟩
  exact heq.trans (perform_dsq_congr rfl hd)

/-- What an enqueue does apart from its kicks. -/
def Effect.isWait : Effect → Bool
  | .count .inserts _ | .count .misses _ | .count .admits _ => true
  | .count .redRejects _ | .count .gateRejects _ => true
  | .cacheFill _ _ | .storeDeadline _ | .insertVtime _ _ _ | .insert _ _ => true
  | _ => false

/-- Every effect of an enqueue is a kick's or the wait's. -/
theorem flowEnqueue_effects (w : World) (k : Kernel) (p : TaskRef) (enqFlags : UInt64) :
    ∀ e ∈ (flowEnqueue w k p enqFlags).eff, e.isKick = true ∨ e.isWait = true := by
  obtain ⟨dsq, v, hshape⟩ := flowEnqueue_shape w k p enqFlags
  obtain ⟨prep, store, rest, heff, hprep, ⟨join, kicks, rfl, hjoin, hkicks⟩, hstore⟩ :=
    hshape.parts
  rw [heff]
  intro e he
  rcases List.mem_append.mp he with he | he
  · right
    rcases List.mem_append.mp he with he | he
    · have hp := hprep e he
      cases e with
      | count c n =>
        cases c with
        | inserts => rfl
        | _ => cases hp
      | cacheFill pid id => rfl
      | _ => cases hp
    · generalize enqueueTests w k p enqFlags = tested at hstore
      cases hstore with
      | untested h => exact absurd he List.not_mem_nil
      | tested hint h =>
        rcases List.mem_append.mp he with he | he
        · split at he
          · rw [List.mem_singleton.mp he]
            rfl
          · exact absurd he List.not_mem_nil
        · rw [List.mem_singleton.mp he]
          rfl
  · rcases List.mem_append.mp he with he | he
    · right
      cases hjoin with
      | exiting cpu flags =>
        rw [List.mem_singleton.mp he]
        rfl
      | _ =>
        rcases List.mem_pair.mp he with rfl | rfl
        · rfl
        · rfl
    · exact Or.inl (hkicks e he)

end TaskOps

section OneTurn

/-- The turn adds an entry to a queue or takes one off. -/
def Turn.touches : Turn → Bool
  | .call ⟨_, .enqueue _ _⟩ => true
  | .pick _ => true
  | .dequeue _ _ => true
  | _ => false

/-- What a turn does to the queues. -/
inductive QueueTurn (w : World) : Turn → World → Prop
  | kept {t : Turn} {w' : World} (ht : t.touches = false) (h : w'.dsq = w.dsq) : QueueTurn w t w'
  | joined {k : Kernel} {p : TaskRef} {enqFlags : UInt64} {w' : World} (e : Effect) (dsq : ℕ)
    (he : e ∈ (flowEnqueue w k p enqFlags).eff) (hd : e.insertedTo = some dsq)
    (hins : insertions (flowEnqueue w k p enqFlags).eff = [dsq])
    (h : w'.dsq = (w.perform k p e).dsq) : QueueTurn w (.call ⟨k, .enqueue p enqFlags⟩) w'
  | passed {k : Kernel} {cpu : ℕ} {w' : World} (s : Pass) (hl : flowCpuLive w cpu = true)
    (hs : Stages k cpu (Pass.start w k.nrSlots) s) (hok : ∃ Q, PassOk w k cpu Q s)
    (hlog : s.log = (flowDispatchPass w k cpu true).log) (h : w'.dsq = s.world.dsq) :
    QueueTurn w (.call ⟨k, .dispatch cpu⟩) w'
  | picked (cpu : ℕ) : QueueTurn w (.pick cpu) (w.pick cpu)
  | dequeued (p : TaskRef) (dsq : ℕ) : QueueTurn w (.dequeue p dsq) (w.dequeue p dsq)

theorem step_onTask_dsq {op : Op} {o : OpOut} (h : op.onTask w k = some (p, o))
    (hop : ∀ q enqFlags, op ≠ .enqueue q enqFlags) : (w.step ⟨k, op⟩).dsq = w.dsq := by
  rw [World.step_onTask h]
  exact run_dsq _ k p (insertions_eq_nil.mp (onTask_quiet h hop))

theorem seedTopoWith_dsq (w : World) (rows : List TopoRow) : (seedTopoWith w rows).dsq = w.dsq :=
  List.foldl_observe World.dsq w fun w row _ => by
    split
    · rfl
    · rfl

theorem select_dsq (w : World) (k : Kernel) (es : List SelectEffect) :
    (w.select k es).dsq = w.dsq :=
  List.foldl_observe World.dsq w fun w e _ => by
    split
    · rfl
    · rw [flowCount_eq]

theorem step_queues (w : World) (c : Call) : QueueTurn w (.call c) (w.step c) := by
  obtain ⟨k, op⟩ := c
  have hcgroup (hop : op.isCgroup = true) : (w.step ⟨k, op⟩).dsq = w.dsq := by
    obtain ⟨stor, cache, heq⟩ := step_cgroup w k hop
    rw [heq]
  cases op with
  | enqueue p enqFlags =>
    obtain ⟨e, he, dsq, hd, hins, heq⟩ := flowEnqueue_dsq w k p enqFlags
    exact .joined e dsq he hd hins heq
  | dispatch cpu =>
    by_cases h0 : cpu < 0
    · exact .kept rfl (flowDispatch_closed (Or.inl h0))
    obtain ⟨c, rfl⟩ : ∃ c : ℕ, cpu = c := ⟨cpu.toNat, by omega⟩
    rcases hl : flowCpuLive w c with _ | _
    · exact .kept rfl (flowDispatch_closed (Or.inr hl))
    · obtain ⟨s, hs, hok, hlog, h⟩ := flowDispatch_stages (k := k) hl
      exact .passed s hl hs hok hlog h
  | running p => exact .kept rfl (step_onTask_dsq rfl (by simp))
  | stopping p runnable => exact .kept rfl (step_onTask_dsq rfl (by simp))
  | enable p => exact .kept rfl (step_onTask_dsq rfl (by simp))
  | disable p => exact .kept rfl (step_onTask_dsq rfl (by simp))
  | exitTask p => exact .kept rfl (step_onTask_dsq rfl (by simp))
  | cpuRelease cpu =>
    refine .kept rfl ?_
    show (flowCpuRelease w k cpu).dsq = w.dsq
    unfold flowCpuRelease
    split
    · rw [flowCount_eq]
    · rw [flowClearRunning_eq]
  | setWeight p weight =>
    refine .kept rfl ?_
    show (flowSetWeight w p weight).dsq = w.dsq
    rw [flowSetWeight_eq]
  | cgroupInit cgrp => exact .kept rfl (hcgroup rfl)
  | cgroupExit cgrp => exact .kept rfl (hcgroup rfl)
  | cgroupMove p dst => exact .kept rfl (hcgroup rfl)
  | cgroupSetWeight cgrp weight => exact .kept rfl (hcgroup rfl)

/-- What every turn of the core does to the queues. -/
theorem turn_queues (w : World) (t : Turn) : QueueTurn w t (core.step w t) := by
  cases t with
  | call c => exact step_queues w c
  | select k cap p prevCpu => exact .kept rfl (select_dsq w k _)
  | seed rows => exact .kept rfl (seedTopoWith_dsq w rows)
  | pick cpu => exact .picked cpu
  | dequeue p dsq => exact .dequeued p dsq

end OneTurn

end ScxFlow
