import ScxFlow.Proofs.Counters
import ScxFlow.Proofs.Program
import ScxFlow.Proofs.RunClaim

/-!
# The gauge of tasks on CPUs

The page counts the rows that name a task.  Where the kernel seats one task at a time on a CPU, and
the gate is open to it when it starts and when it stops, each row names the task seated there and the
gauge is the number of CPUs at work (`run_gauge`).
-/

namespace ScxFlow

variable {w : World} {k : Kernel} {p : TaskRef}

/-- The scheduler, and the PID of the task seated on each CPU, zero for none. -/
structure Seated where
  world : World
  on : ℕ → UInt32

/-- A task is seated by its running and unseated by its stop. -/
def seat (on : ℕ → UInt32) : Turn → ℕ → UInt32
  | .call ⟨k, .running p⟩ => Function.update on (k.task p).taskCpu.toNat (k.task p).pid
  | .call ⟨k, .stopping p _⟩ => Function.update on (k.task p).taskCpu.toNat 0
  | _ => on

def seated : Machine Seated Turn Unit where
  step s t := ⟨core.step s.world t, seat s.on t⟩
  out _ _ := []

/-- The gate is open to a task on the CPU it is on. -/
def GateOpen (w : World) (ts : TaskStruct) : Prop :=
  0 ≤ ts.taskCpu ∧ flowEntryOk w ts ts.taskCpu 0 = true ∧ ts.pid ≠ 0

/-- How the kernel calls the ops of a running task: it starts on a free CPU and stops where it runs,
it is disabled or exits when it runs no more, and a CPU taken from the scheduler is free. -/
def Seats (s : Seated) : Turn → Prop
  | .call ⟨k, .running p⟩ => GateOpen s.world (k.task p) ∧ s.on (k.task p).taskCpu.toNat = 0
  | .call ⟨k, .stopping p _⟩ =>
    GateOpen s.world (k.task p) ∧ s.on (k.task p).taskCpu.toNat = (k.task p).pid
  | .call ⟨k, .disable p⟩ => s.on (k.task p).taskCpu.toNat ≠ (k.task p).pid
  | .call ⟨k, .exitTask p⟩ => s.on (k.task p).taskCpu.toNat ≠ (k.task p).pid
  | .call ⟨_, .cpuRelease cpu⟩ => s.on cpu.toNat = 0
  | _ => True

section Row

/-- The CPU whose owner an effect writes. -/
def Effect.ownerOf : Effect → Option ℤ
  | .setRunning cpu _ => some cpu
  | .clearRunningIfOwner cpu _ => some cpu
  | .clearRunning cpu => some cpu
  | _ => none

theorem owner_setCpu_other (w : World) {d cpu : ℕ} (st : FlowCpuState) (h : cpu ≠ d) :
    owner (w.setCpu d st) cpu = owner w cpu := by
  show (Function.update w.cpuState d st cpu).runningPid = _
  rw [Function.update_of_ne h]
  rfl

theorem flowMinAdvance_owner (w : World) (d : ℤ) (v : UInt64) (cpu : ℕ) :
    owner (flowMinAdvance w d v) cpu = owner w cpu := by
  unfold flowMinAdvance
  simp only
  split_ifs
  · rfl
  · rfl
  · rfl
  · rfl
  · rfl
  · by_cases hc : cpu = d.toNat
    · subst hc
      simp [owner, World.setCpu]
    · exact owner_setCpu_other w _ hc

/-- An effect leaves the owners of the other CPUs. -/
theorem perform_owner_other {e : Effect} {cpu : ℕ} (h : ∀ d ∈ e.ownerOf, d.toNat ≠ cpu) :
    owner (w.perform k p e) cpu = owner w cpu := by
  cases e
  case setRunning d pid => exact owner_setCpu_other w _ (by simpa [eq_comm] using h d rfl)
  case clearRunningIfOwner d pid =>
    have hne : cpu ≠ d.toNat := (h d rfl).symm
    rw [World.perform]
    unfold flowClearRunningIfOwner
    split_ifs
    · rfl
    · rfl
    · rfl
    · exact owner_setCpu_other w _ hne
    · rfl
  case clearRunning d =>
    have hne : cpu ≠ d.toNat := (h d rfl).symm
    rw [World.perform]
    unfold flowClearRunning
    split_ifs
    · rfl
    · rfl
    · exact owner_setCpu_other w _ hne
  case minAdvance d v => exact flowMinAdvance_owner w d v cpu
  all_goals
    unfold owner
    rw [perform_cpuState w k p rfl]

theorem run_owner_other {cpu : ℕ} {es : List Effect} (w : World)
    (h : ∀ e ∈ es, ∀ d ∈ e.ownerOf, d.toNat ≠ cpu) : owner (w.run k p es) cpu = owner w cpu :=
  List.foldl_observe (fun w => owner w cpu) w fun _ e he => perform_owner_other (h e he)

theorem commit_owner_other {o : OpOut} {cpu : ℕ}
    (h : ∀ e ∈ o.eff, ∀ d ∈ e.ownerOf, d.toNat ≠ cpu) : owner (w.commit k p o) cpu = owner w cpu :=
  run_owner_other { w with taskCtx := Function.update w.taskCtx p o.ctx } h

theorem EndEff.ownerOf {ts : TaskStruct} {e : Effect} (h : EndEff ts e) :
    ∀ d ∈ e.ownerOf, d = ts.taskCpu := by
  cases h with
  | clear =>
    intro d hd
    exact (Option.some.inj hd).symm
  | _ => exact fun d hd => nomatch hd

/-- No effect of an enqueue writes an owner. -/
theorem flowEnqueue_ownerOf (w : World) (k : Kernel) (p : TaskRef) (enqFlags : UInt64) :
    ∀ e ∈ (flowEnqueue w k p enqFlags).eff, e.ownerOf = none := by
  intro e he
  have heff := flowEnqueue_effects w k p enqFlags e he
  cases e with
  | setRunning cpu pid => exact heff.elim (fun h => nomatch h) fun h => nomatch h
  | clearRunningIfOwner cpu pid => exact heff.elim (fun h => nomatch h) fun h => nomatch h
  | clearRunning cpu => exact heff.elim (fun h => nomatch h) fun h => nomatch h
  | _ => rfl

/-- A clear of a row that does not name the PID changes nothing. -/
theorem flowClearRunningIfOwner_ne_eq {d : ℤ} {pid : UInt32} (h : owner w d.toNat ≠ pid) :
    flowClearRunningIfOwner w d pid = w := by
  unfold flowClearRunningIfOwner
  split_ifs
  · rfl
  · rfl
  · rfl
  · rename_i heq
    exact absurd heq h
  · rfl

end Row

section OneTurn

/-- The clear that ends a disable or an exit changes no row that does not name the PID. -/
theorem commit_owner_of_ne {ctx : Option FlowTaskCtx} (cpu : ℕ)
    (h : owner w (k.task p).taskCpu.toNat ≠ (k.task p).pid) :
    owner (w.commit k p ⟨ctx, [.cacheInvalidate (k.task p).pid,
      .clearRunningIfOwner (k.task p).taskCpu (k.task p).pid]⟩) cpu = owner w cpu := by
  have hkeep : ∀ cpu, owner (({ w with taskCtx := Function.update w.taskCtx p ctx }).perform k p
      (.cacheInvalidate (k.task p).pid)) cpu = owner w cpu :=
    fun cpu => perform_owner_other fun d hd => nomatch hd
  show owner (flowClearRunningIfOwner (({ w with
    taskCtx := Function.update w.taskCtx p ctx }).perform k p (.cacheInvalidate (k.task p).pid))
    (k.task p).taskCpu (k.task p).pid) cpu = _
  rw [flowClearRunningIfOwner_ne_eq (by rwa [hkeep])]
  exact hkeep cpu

theorem flowDisable_owner (cpu : ℕ) (h : owner w (k.task p).taskCpu.toNat ≠ (k.task p).pid) :
    owner (w.commit k p (flowDisable w k p)) cpu = owner w cpu := by
  unfold flowDisable
  simp only
  split
  · exact commit_owner_other (by simp [Effect.ownerOf])
  · exact commit_owner_of_ne cpu h

theorem flowRunning_owner (hopen : GateOpen w (k.task p)) (cpu : ℕ) :
    owner (w.commit k p (flowRunning w k p)) cpu
      = Function.update (owner w) (k.task p).taskCpu.toNat (k.task p).pid cpu := by
  obtain ⟨h0, hgate, -⟩ := hopen
  obtain ⟨c, hc⟩ : ∃ c : ℕ, (k.task p).taskCpu = c := ⟨(k.task p).taskCpu.toNat, by omega⟩
  have hlive := flowCpuLive_of_entryOk hc hgate
  have hown : ownerEffect w (k.task p) = [.setRunning c (k.task p).pid] := by
    unfold ownerEffect
    rw [hc, if_neg (by omega)]
    simp [hlive]
  have hstore (w' : World) (hw : ∀ c, owner w' c = owner w c) :
      owner (w'.perform k p (.setRunning c (k.task p).pid)) cpu
        = Function.update (owner w) c (k.task p).pid cpu := by
    rw [World.perform, owner_setCpu, hw, Function.update_apply]
  rw [hc, Int.toNat_natCast]
  rcases flowRunning_of_open hgate with ⟨t, -, -, heq⟩ | ⟨-, heq⟩
  · rw [heq, hown]
    exact hstore _ fun _ => rfl
  · rw [heq, hown]
    exact hstore _ fun _ => rfl

theorem flowStopping_owner_exact {runnable : Bool} (hopen : GateOpen w (k.task p))
    (hon : owner w (k.task p).taskCpu.toNat = (k.task p).pid) (cpu : ℕ) :
    owner (w.commit k p (flowStopping w k p runnable)) cpu
      = Function.update (owner w) (k.task p).taskCpu.toNat 0 cpu := by
  obtain ⟨h0, hgate, hpid⟩ := hopen
  obtain ⟨c, hc⟩ : ∃ c : ℕ, (k.task p).taskCpu = c := ⟨(k.task p).taskCpu.toNat, by omega⟩
  rw [hc, Int.toNat_natCast] at hon ⊢
  by_cases hcpu : cpu = c
  · subst hcpu
    rw [Function.update_self]
    rcases commit_owner (flowStopping_isStore w k p runnable) cpu with hsame | hzero
    · exact absurd (hsame.trans hon) (flowStopping_owner hc hgate hpid)
    · exact hzero
  · rw [Function.update_of_ne hcpu]
    refine commit_owner_other fun e he d hd => ?_
    rcases flowStopping_ends w k p runnable e he with ⟨start, delta, rfl⟩ | hend
    · cases hd
    · rw [hend.ownerOf d hd, hc, Int.toNat_natCast]
      exact Ne.symm hcpu

theorem flowCpuRelease_owner {d : ℤ} (h : owner w d.toNat = 0) (cpu : ℕ) :
    owner (flowCpuRelease w k d) cpu = owner w cpu := by
  unfold flowCpuRelease
  split
  · rw [flowCount_eq]
    rfl
  · unfold flowClearRunning
    split_ifs
    · rfl
    · rfl
    · rw [owner_setCpu]
      split
      · subst cpu
        exact h.symm
      · rfl

theorem select_owner (w : World) (k : Kernel) (es : List SelectEffect) (cpu : ℕ) :
    owner (w.select k es) cpu = owner w cpu :=
  List.foldl_observe (fun w => owner w cpu) w fun w e _ => by
    split
    · rename_i d next _
      by_cases hc : cpu = d
      · subst hc
        simp [owner, World.setCpu]
      · exact owner_setCpu_other w _ hc
    · rw [flowCount_eq]
      rfl

theorem seedTopoWith_owner (w : World) (rows : List TopoRow) (cpu : ℕ) :
    owner (seedTopoWith w rows) cpu = owner w cpu :=
  List.foldl_observe (fun w => owner w cpu) w fun w row _ => by
    split
    · rfl
    · rfl

/-- Where the rows name what is seated, a call keeps it so. -/
theorem call_owner {s : Seated} {c : Call} (hc : Seats s (.call c))
    (h : ∀ cpu, owner s.world cpu = s.on cpu) (cpu : ℕ) :
    owner (s.world.step c) cpu = seat s.on (.call c) cpu := by
  obtain ⟨w, on⟩ := s
  obtain rfl : owner w = on := funext h
  obtain ⟨k, op⟩ := c
  have hcgroup (hop : op.isCgroup = true) : owner (w.step ⟨k, op⟩) cpu = owner w cpu := by
    obtain ⟨stor, cache, heq⟩ := step_cgroup w k hop
    rw [heq]
    rfl
  cases op with
  | enqueue p enqFlags =>
    exact commit_owner_other fun e he d hd => by
      rw [flowEnqueue_ownerOf w k p enqFlags e he] at hd
      cases hd
  | running p => exact flowRunning_owner hc.1 cpu
  | stopping p runnable => exact flowStopping_owner_exact hc.1 hc.2 cpu
  | enable p =>
    refine commit_owner_other fun e he d hd => ?_
    unfold flowEnable at he
    simp only at he
    split at he
    · rw [List.mem_singleton.mp he] at hd
      cases hd
    · split at he
      · exact absurd he List.not_mem_nil
      · rw [List.mem_singleton.mp he] at hd
        cases hd
  | disable p => exact flowDisable_owner cpu hc
  | exitTask p => exact commit_owner_of_ne cpu hc
  | cpuRelease d => exact flowCpuRelease_owner hc cpu
  | dispatch d => exact (flowDispatch_rows w k d).2.2 cpu
  | setWeight p weight =>
    show owner (flowSetWeight w p weight) cpu = _
    rw [flowSetWeight_eq]
    rfl
  | cgroupInit cgrp => exact hcgroup rfl
  | cgroupExit cgrp => exact hcgroup rfl
  | cgroupMove p dst => exact hcgroup rfl
  | cgroupSetWeight cgrp weight => exact hcgroup rfl

theorem turn_owner {s : Seated} {t : Turn} (ht : Seats s t)
    (h : ∀ cpu, owner s.world cpu = s.on cpu) (cpu : ℕ) :
    owner (core.step s.world t) cpu = seat s.on t cpu := by
  cases t with
  | call c => exact call_owner ht h cpu
  | select k cap p prevCpu => exact (select_owner s.world k _ cpu).trans (h cpu)
  | seed rows => exact (seedTopoWith_owner s.world rows cpu).trans (h cpu)
  | pick d => exact h cpu
  | dequeue q dsq => exact h cpu

end OneTurn

section Runs

theorem flowSatAdd_zero (a : UInt64) : flowSatAdd a 0 = a := by
  unfold flowSatAdd
  simp

/-- `count_on_cpu` counts the CPUs of its list whose rows name a task. -/
theorem countOnCpu_toNat (w : World) (cpus : List UInt32) : (countOnCpu w cpus).toNat
    = min (cpus.countP fun id => decide ((readCpu w id.toNat).runningPid ≠ 0)) (2 ^ 64 - 1) := by
  have hone : ∀ (live : UInt64) (id : UInt32),
      (if (readCpu w id.toNat).runningPid ≠ 0 then flowSatAdd live 1 else live)
        = flowSatAdd live (if (readCpu w id.toNat).runningPid ≠ 0 then 1 else 0) := by
    intro live id
    split
    · rfl
    · exact (flowSatAdd_zero live).symm
  have hsum : (cpus.map fun id =>
      (if (readCpu w id.toNat).runningPid ≠ 0 then (1 : UInt64) else 0).toNat).sum
        = cpus.countP fun id => decide ((readCpu w id.toNat).runningPid ≠ 0) := by
    induction cpus with
    | nil => rfl
    | cons id cpus ih =>
      rw [List.map_cons, List.sum_cons, ih, List.countP_cons]
      by_cases hid : (readCpu w id.toNat).runningPid = 0
      · simp [hid]
      · simp [hid, Nat.add_comm]
  unfold countOnCpu
  simp only [hone]
  rw [foldl_flowSatAdd, hsum]
  simp

theorem Seedable.length_le {rows : List TopoRow} (h : Seedable rows) : rows.length ≤ cpuBound := by
  have hnodup : (rows.map fun row => row.cpu.toNat).Nodup :=
    List.pairwise_map.mpr (h.rank.imp fun hlt => hlt.ne)
  have hsub : (rows.map fun row => row.cpu.toNat) ⊆ List.range cpuBound := by
    intro cpu hcpu
    obtain ⟨row, hrow, rfl⟩ := List.mem_map.mp hcpu
    exact List.mem_range.mpr (h.cpus row hrow)
  have hle := (List.subperm_of_subset hnodup hsub).length_le
  rwa [List.length_map, List.length_range] at hle

/-- Over every run in which the kernel seats its tasks so, each row names the task seated on its CPU,
and the gauge of a poll is the number of online CPUs with a task. -/
theorem run_gauge (s : Seated) (ts : List Turn) (hstart : ∀ cpu, owner s.world cpu = s.on cpu)
    (h : seated.Along Seats s ts) (rows : List TopoRow) (hrows : Seedable rows) (elapsed : ℕ) :
    let s' := seated.exec s ts
    (∀ cpu, owner s'.world cpu = s'.on cpu)
      ∧ (getMetrics s'.world ⟨rows.map TopoRow.cpu, rows⟩ elapsed).onCpu.toNat
        = rows.countP fun row => decide (s'.on row.cpu.toNat ≠ 0) := by
  have hown : ∀ cpu, owner (seated.exec s ts).world cpu = (seated.exec s ts).on cpu :=
    seated.exec_along (I := fun s => ∀ cpu, owner s.world cpu = s.on cpu)
      (fun _ _ ht hi => turn_owner ht hi) h hstart
  refine ⟨hown, ?_⟩
  have hlen := hrows.length_le
  have hcount : (rows.map TopoRow.cpu).countP
      (fun id => decide ((readCpu (seated.exec s ts).world id.toNat).runningPid ≠ 0))
        = rows.countP fun row => decide ((seated.exec s ts).on row.cpu.toNat ≠ 0) := by
    rw [List.countP_map]
    refine List.countP_congr fun row hrow => ?_
    have hcpu := hrows.cpus row hrow
    have hread : readCpu (seated.exec s ts).world row.cpu.toNat
        = (seated.exec s ts).world.cpuState row.cpu.toNat := if_neg (by simpa using hcpu)
    show decide _ = true ↔ _
    rw [hread, ← hown]
    rfl
  show (countOnCpu _ _).toNat = _
  rw [countOnCpu_toNat, hcount]
  have hle := List.countP_le_length (p := fun row : TopoRow =>
    decide ((seated.exec s ts).on row.cpu.toNat ≠ 0)) (l := rows)
  simp only [cpuBound] at hlen
  omega

/-- A task runs on CPU 0 and stops there for another. -/
def seatedTwice : List Turn :=
  [.call ⟨Kernel.plain 1000, .running 1⟩, .call ⟨Kernel.plain 2000, .stopping 1 true⟩,
    .call ⟨Kernel.plain 2000, .running 2⟩]

/-- The rows of two CPUs, each alone on its core. -/
def twoRows : List TopoRow := [⟨0, noSibling, 0⟩, ⟨1, noSibling, 1⟩]

theorem run_gauge_seatedTwice :
    let s' := seated.exec ⟨World.attached, fun _ => 0⟩ seatedTwice
    (∀ cpu, owner s'.world cpu = s'.on cpu)
      ∧ (getMetrics s'.world ⟨twoRows.map TopoRow.cpu, twoRows⟩ 0).onCpu.toNat
        = twoRows.countP fun row => decide (s'.on row.cpu.toNat ≠ 0) := by
  have hopen : ∀ w : World, w.nrCpuIds = 2 → ∀ now p, (TaskStruct.plain p).pid ≠ 0 →
      GateOpen w ((Kernel.plain now).task p) := by
    intro w hw now p hp
    refine ⟨le_refl (0 : ℤ), ?_, hp⟩
    simp [flowEntryOk, flowCpuLive, Kernel.plain, TaskStruct.plain, hw]
  refine run_gauge ⟨World.attached, fun _ => 0⟩ seatedTwice (fun cpu => ?_) ?_ twoRows ?_ 0
  · unfold owner World.attached World.seeded World.boot
    simp only
    split
    · rfl
    · rfl
  · refine ⟨⟨hopen _ rfl _ _ (by decide), rfl⟩, ⟨hopen _ ?_ _ _ (by decide), rfl⟩,
      ⟨hopen _ ?_ _ _ (by decide), rfl⟩, trivial⟩
    · decide +kernel
    · decide +kernel
  · exact ⟨by decide, by decide, by decide, by decide⟩

end Runs

end ScxFlow
