import ScxFlow.Core
import ScxFlow.Lib.Potential
import ScxFlow.Proofs.Admission
import ScxFlow.Proofs.Counters
import ScxFlow.Proofs.EnqueueLedger
import ScxFlow.Proofs.Kicks
import ScxFlow.Proofs.PassContract
import ScxFlow.Proofs.Segment
import Mathlib.Algebra.Order.BigOperators.Group.List

/-!
# The rows of the counters over runs

Every turn adds what it counts to the row of the CPU that executes it, so while a list names these
CPUs once each and no sum overflows, the sums over the list grow by what the turns count
(`run_listed`).
-/

namespace ScxFlow

variable {w : World} {k : Kernel} {p : TaskRef} {c : Counter} {cpus : List UInt32}

section Counted

/-- What a list of effects adds to a counter. -/
def amountOf (c : Counter) (es : List Effect) : ℕ := ((countsOf c es).map UInt64.toNat).sum

theorem amountOf_append (c : Counter) (es es' : List Effect) :
    amountOf c (es ++ es') = amountOf c es + amountOf c es' := by
  unfold amountOf
  rw [countsOf_append, List.map_append, List.sum_append]

theorem amountOf_cons (c : Counter) (e : Effect) (es : List Effect) :
    amountOf c (e :: es) = amountOf c [e] + amountOf c es := amountOf_append c [e] es

theorem amountOf_count (c c' : Counter) (n : UInt64) :
    amountOf c [.count c' n] = if c' = c then n.toNat else 0 := by
  unfold amountOf countsOf
  by_cases h : c' = c
  · simp [h]
  · simp [h]

/-- A count of nothing is none. -/
theorem flowAccount_count (w : World) (k : Kernel) (c : Counter) (n : ℕ) :
    flowAccount w k c n = flowCount w k c (UInt64.ofNat n) := by
  unfold flowAccount
  split
  · rename_i h
    subst h
    unfold flowCount
    simp
  · rfl

/-- The counts of a pass, in the order it makes them. -/
def passCounts (w : World) (k : Kernel) (cpu : ℤ) : List Effect :=
  if 0 ≤ cpu ∧ flowCpuLive w cpu.toNat = false then [.count .gateRejects 1]
  else
    let s := flowDispatchPass w k cpu true
    [.count .localMoves (UInt64.ofNat s.localMoved), .count .nodeMoves (UInt64.ofNat s.nodeMoved),
      .count .machineMoves (UInt64.ofNat s.machineMoved),
      .count .redReclaims (UInt64.ofNat s.reclaimMoved)]

def SelectEffect.count : SelectEffect → List Effect
  | .gateReject => [.count .gateRejects 1]
  | .storeCursor _ _ => []

/-- The effects of a turn: all of an op's on a task, else its counts. -/
def turnEffects (w : World) : Turn → List Effect
  | .call ⟨k, op⟩ =>
    match op.onTask w k with
    | some (_, o) => o.eff
    | none =>
      match op with
      | .dispatch cpu => passCounts w k cpu
      | .cpuRelease cpu => if cpu ≥ 0 ∧ !flowCpuLive w cpu.toNat then [.count .gateRejects 1] else []
      | _ => []
  | .select k cap p prevCpu => (flowSelectCpu w cap k p prevCpu).2.flatMap SelectEffect.count
  | _ => []

theorem turnEffects_onTask {op : Op} {o : OpOut} (h : op.onTask w k = some (p, o)) :
    turnEffects w (.call ⟨k, op⟩) = o.eff := by
  simp only [turnEffects, h]

/-- What the kernel shows the scheduler in a turn, where it calls it. -/
def Turn.view : Turn → Option Kernel
  | .call c => some c.view
  | .select k _ _ _ => some k
  | _ => none

/-- The CPU that executes the turn has a row, and the list names it once. -/
def ExecutesOn (cpus : List UInt32) (w : World) (t : Turn) : Prop :=
  ∀ k ∈ t.view, statsLive w k ∧ (cpus.map UInt32.toNat).count k.smpCpu = 1

instance ExecutesOn.decidable (cpus : List UInt32) (w : World) (t : Turn) :
    Decidable (ExecutesOn cpus w t) :=
  inferInstanceAs (Decidable (∀ k ∈ t.view,
    (k.smpCpu < w.nrCpuIds ∧ k.smpCpu < flowMaxCpus) ∧ _))

end Counted

section RowSums

theorem listed_congr {w' : World} (h : ∀ cpu, w'.cpuStats cpu c = w.cpuStats cpu c) :
    listed w' cpus c = listed w cpus c := by
  unfold listed readStats
  congr 1
  refine List.map_congr_left fun id _ => ?_
  split
  · rfl
  · rw [h]

/-- A row on the list is within the sum. -/
theorem row_le_listed (hl : statsLive w k) (hone : (cpus.map UInt32.toNat).count k.smpCpu = 1) :
    (w.cpuStats k.smpCpu c).toNat ≤ listed w cpus c := by
  have hmem : k.smpCpu ∈ cpus.map UInt32.toNat := List.count_pos_iff.mp (hone ▸ Nat.one_pos)
  obtain ⟨id, hid, hcpu⟩ := List.mem_map.mp hmem
  have hrow : readStats w id.toNat c = w.cpuStats k.smpCpu c := by
    unfold readStats
    rw [hcpu, if_neg (Nat.not_le.mpr hl.2)]
  rw [← hrow]
  exact List.le_sum_of_mem (List.mem_map.mpr ⟨id, hid, rfl⟩)

theorem perform_listed (e : Effect) (hl : statsLive w k)
    (hone : (cpus.map UInt32.toNat).count k.smpCpu = 1)
    (hroom : listed w cpus c + amountOf c [e] < 2 ^ 64) :
    listed (w.perform k p e) cpus c = listed w cpus c + amountOf c [e] := by
  rcases he : e.counts c with _ | _
  · have hnone : amountOf c [e] = 0 := by
      unfold amountOf
      rw [countsOf_eq_nil.mpr (by simpa using he)]
      rfl
    rw [hnone, Nat.add_zero]
    exact listed_congr fun cpu => perform_stats w k p he cpu
  · cases e with
    | count c' n =>
      obtain rfl : c' = c := of_decide_eq_true he
      rw [amountOf_count, if_pos rfl] at hroom ⊢
      have hrow := row_le_listed (c := c') hl hone
      have hreads := flowCount_reads hl (n := n) (c := c') (by omega)
      show listed (flowCount w k c' n) cpus c' = _
      unfold listed
      simp only [hreads, true_and]
      rw [List.sum_map_add, sum_countOf, hone, Nat.mul_one]
    | _ => cases he

theorem run_amount : ∀ (es : List Effect) {w : World}, statsLive w k →
    (cpus.map UInt32.toNat).count k.smpCpu = 1 → listed w cpus c + amountOf c es < 2 ^ 64 →
    listed (w.run k p es) cpus c = listed w cpus c + amountOf c es
  | [], _, _, _, _ => rfl
  | e :: es, w, hl, hone, hroom => by
    rw [amountOf_cons] at hroom ⊢
    have hfirst := perform_listed (p := p) e hl hone (c := c) (by omega)
    have hl' : statsLive (w.perform k p e) k := by
      unfold statsLive
      rwa [(perform_frame w k p e).2.2.1]
    rw [run_cons, run_amount es hl' hone (by omega), hfirst]
    omega

end RowSums

section OneTurn

theorem flowDispatchAccount_run (k : Kernel) (s : Pass) :
    flowDispatchAccount k s = s.world.run k 0 [.count .localMoves (UInt64.ofNat s.localMoved),
      .count .nodeMoves (UInt64.ofNat s.nodeMoved),
      .count .machineMoves (UInt64.ofNat s.machineMoved),
      .count .redReclaims (UInt64.ofNat s.reclaimMoved)] := by
  unfold flowDispatchAccount
  simp only [flowAccount_count]
  rfl

theorem dispatch_listed (cpu : ℤ) (hl : statsLive w k)
    (hone : (cpus.map UInt32.toNat).count k.smpCpu = 1)
    (hroom : listed w cpus c + amountOf c (passCounts w k cpu) < 2 ^ 64) :
    listed (flowDispatch w k cpu) cpus c = listed w cpus c + amountOf c (passCounts w k cpu) := by
  unfold passCounts at hroom ⊢
  by_cases h0 : cpu < 0
  · have hpass : flowDispatchPass w k cpu true = Pass.start w 0 := by
      unfold flowDispatchPass
      rw [if_pos h0]
    unfold flowDispatch
    rw [if_neg (by omega), hpass] at hroom ⊢
    rw [← run_amount (p := 0) _ hl hone hroom]
    exact congrArg (fun w => listed w cpus c) (flowDispatchAccount_run k (Pass.start w 0))
  obtain ⟨n, rfl⟩ : ∃ n : ℕ, cpu = n := ⟨cpu.toNat, by omega⟩
  rcases hlive : flowCpuLive w n with _ | _
  · have hpass : flowDispatchPass w k n true = Pass.start (flowCount w k .gateRejects 1) 0 := by
      unfold flowDispatchPass
      rw [if_neg h0, Int.toNat_natCast, hlive]
      rfl
    unfold flowDispatch
    rw [Int.toNat_natCast, if_pos ⟨by omega, hlive⟩] at hroom ⊢
    rw [hpass]
    exact run_amount (p := 0) _ hl hone hroom
  · obtain ⟨s, ⟨Q, hok⟩, -, -, -, -, htally, hend⟩ := flowDispatchPass_live (k := k) hlive true
    rw [Int.toNat_natCast, if_neg (by simp [hlive])] at hroom ⊢
    obtain ⟨h1, h2, h3, h4⟩ : _ ∧ _ ∧ _ ∧ _ := by
      simpa only [Pass.tally, Prod.mk.injEq] using htally
    simp only [h1, h2, h3, h4] at hroom ⊢
    have hstart : listed s.world cpus c = listed w cpus c :=
      listed_congr fun d => by rw [hok.keeps.cpuStats]
    have hls : statsLive s.world k := by
      unfold statsLive
      rwa [hok.keeps.nrCpuIds]
    rw [← hstart] at hroom ⊢
    rw [← run_amount (p := 0) _ hls hone hroom, ← flowDispatchAccount_run]
    exact listed_congr fun d => by rw [flowDispatch, hend.cpuStats]

theorem select_listed : ∀ (es : List SelectEffect) {w : World}, statsLive w k →
    (cpus.map UInt32.toNat).count k.smpCpu = 1 →
    listed w cpus c + amountOf c (es.flatMap SelectEffect.count) < 2 ^ 64 →
    listed (w.select k es) cpus c = listed w cpus c + amountOf c (es.flatMap SelectEffect.count)
  | [], _, _, _, _ => rfl
  | .storeCursor cpu next :: es, w, hl, hone, hroom =>
    select_listed es (w := w.setCpu cpu { w.cpuState cpu with cursor := next }) hl hone hroom
  | .gateReject :: es, w, hl, hone, hroom => by
    rw [List.flatMap_cons, SelectEffect.count, amountOf_append] at hroom ⊢
    have hfirst := perform_listed (p := 0) (.count .gateRejects 1) hl hone (c := c) (by omega)
    have hl' : statsLive (flowCount w k .gateRejects 1) k := by
      rw [flowCount_eq]
      exact hl
    show listed ((flowCount w k .gateRejects 1).select k es) cpus c = _
    rw [World.perform] at hfirst
    rw [select_listed es hl' hone (by omega), hfirst]
    omega

/-- A turn adds what it counts to the sums of the rows. -/
theorem turn_listed {t : Turn} (hon : ExecutesOn cpus w t)
    (hroom : listed w cpus c + amountOf c (turnEffects w t) < 2 ^ 64) :
    listed (core.step w t) cpus c = listed w cpus c + amountOf c (turnEffects w t) := by
  cases t with
  | call call =>
    obtain ⟨k, op⟩ := call
    obtain ⟨hl, hone⟩ := hon k rfl
    have hcommit {q : TaskRef} {o : OpOut} (hop : op.onTask w k = some (q, o)) :
        listed (core.step w (.call ⟨k, op⟩)) cpus c
          = listed w cpus c + amountOf c (turnEffects w (.call ⟨k, op⟩)) := by
      rw [turnEffects_onTask hop] at hroom ⊢
      show listed (w.step ⟨k, op⟩) cpus c = _
      rw [World.step_onTask hop]
      exact run_amount (w := { w with taskCtx := Function.update w.taskCtx q o.ctx }) o.eff hl hone
        hroom
    have hcgroup (hop : op.isCgroup = true) : listed (w.step ⟨k, op⟩) cpus c = listed w cpus c := by
      obtain ⟨stor, cache, heq⟩ := step_cgroup w k hop
      rw [heq]
      rfl
    cases op with
    | enqueue q enqFlags => exact hcommit rfl
    | running q => exact hcommit rfl
    | stopping q runnable => exact hcommit rfl
    | enable q => exact hcommit rfl
    | disable q => exact hcommit rfl
    | exitTask q => exact hcommit rfl
    | cpuRelease cpu =>
      show listed (flowCpuRelease w k cpu) cpus c = listed w cpus c
        + amountOf c (if cpu ≥ 0 ∧ !flowCpuLive w cpu.toNat then [.count .gateRejects 1] else [])
      change listed w cpus c + amountOf c
        (if cpu ≥ 0 ∧ !flowCpuLive w cpu.toNat then [.count .gateRejects 1] else []) < _ at hroom
      unfold flowCpuRelease
      split at hroom
      · rename_i hclosed
        rw [if_pos hclosed, if_pos hclosed]
        exact perform_listed (p := 0) _ hl hone hroom
      · rename_i hopen
        rw [if_neg hopen, if_neg hopen, flowClearRunning_eq]
        rfl
    | dispatch cpu => exact dispatch_listed cpu hl hone hroom
    | setWeight q weight =>
      show listed (flowSetWeight w q weight) cpus c = _
      rw [flowSetWeight_eq]
      rfl
    | cgroupInit cgrp => exact hcgroup rfl
    | cgroupExit cgrp => exact hcgroup rfl
    | cgroupMove q dst => exact hcgroup rfl
    | cgroupSetWeight cgrp weight => exact hcgroup rfl
  | select k cap q prevCpu =>
    obtain ⟨hl, hone⟩ := hon k rfl
    exact select_listed _ hl hone hroom
  | seed rows => exact listed_congr fun cpu => congrFun (congrFun (seedTopoWith_stats w rows) cpu) c
  | pick cpu => rfl
  | dequeue q dsq => rfl

/-- A run adds what its turns count to the sums of the rows. -/
theorem run_listed {ts : List Turn} (hon : core.Along (ExecutesOn cpus) w ts)
    (hroom : listed w cpus c + core.total (fun w t => amountOf c (turnEffects w t)) w ts < 2 ^ 64) :
    listed (core.exec w ts) cpus c
      = listed w cpus c + core.total (fun w t => amountOf c (turnEffects w t)) w ts := by
  induction ts generalizing w with
  | nil => rfl
  | cons t ts ih =>
    rw [core.total_cons] at hroom ⊢
    have hstep := turn_listed hon.1 (c := c) (by omega)
    rw [core.exec_cons, ih hon.2 (by omega), hstep]
    omega

end OneTurn

end ScxFlow
