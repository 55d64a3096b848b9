import ScxFlow.Proofs.Admission

/-!
# The cache of the hierarchy is coherent

A hint call keeps the id of a task's hierarchy under its pid, and later calls read the row of that
id without asking for the hierarchy.  Every entry names the hierarchy its live holder is in now: a
move and an exit clear the entry of the pid they read, and a pid is free only after its holder's
exit.  So a call through the cache answers what a call with an empty cache does.
-/

namespace ScxFlow

variable {w : World} {k : Kernel} {p : TaskRef}

section Run

/-- What the kernel keeps of a live task. -/
structure LiveTask where
  pid : UInt32
  cgroup : Option Cgroup

/-- The scheduler's state beside the tasks that are alive. -/
structure Roster where
  world : World
  live : TaskRef → Option LiveTask

/-- What a run of the hierarchy is made of. -/
inductive CacheOp
  | cgroupInit (k : Kernel) (cgrp : Option Cgroup)
  | cgroupExit (k : Kernel) (cgrp : Option Cgroup)
  | cgroupSetWeight (k : Kernel) (cgrp : Option Cgroup) (weight : UInt32)
  | enable (k : Kernel) (p : TaskRef)
  | disable (k : Kernel) (p : TaskRef)
  /-- The task changes its hierarchy, and `flow_cgroup_move` runs with the new one. -/
  | move (k : Kernel) (p : TaskRef) (dst : Cgroup)
  | exitTask (k : Kernel) (p : TaskRef)
  /-- A new task, whose pid may be that of one that has exited. -/
  | start (p : TaskRef) (t : LiveTask)
  | hint (k : Kernel) (p : TaskRef)

/-- The hint of a task as the call returns it, and as it would be with an empty cache. -/
structure HintAnswer where
  cached : UInt32 × UInt32
  uncached : UInt32 × UInt32

/-- The world with nothing in the cache of the hierarchy. -/
def World.emptyCache (w : World) : World := { w with cgrpCache := fun _ => none }

def Roster.step (s : Roster) : CacheOp → Roster
  | .cgroupInit k cgrp => { s with world := s.world.step ⟨k, .cgroupInit cgrp⟩ }
  | .cgroupExit k cgrp => { s with world := s.world.step ⟨k, .cgroupExit cgrp⟩ }
  | .cgroupSetWeight k cgrp weight =>
    { s with world := s.world.step ⟨k, .cgroupSetWeight cgrp weight⟩ }
  | .enable k p => { s with world := s.world.step ⟨k, .enable p⟩ }
  | .disable k p => { s with world := s.world.step ⟨k, .disable p⟩ }
  | .move k p dst =>
    { world := s.world.step ⟨k, .cgroupMove p (some dst)⟩
      live := Function.update s.live p
        ((s.live p).map fun t => { t with cgroup := some dst }) }
  | .exitTask k p =>
    { world := s.world.step ⟨k, .exitTask p⟩
      live := Function.update s.live p none }
  | .start p t => { s with live := Function.update s.live p (some t) }
  | .hint k p => { s with world := s.world.run k p (flowTaskHintWeight s.world k p).2 }

/-- The hierarchy ops and the hint calls, which log what they answer. -/
def hintCalls : Machine Roster CacheOp HintAnswer where
  step := Roster.step
  out s l := match l with
    | .hint k p => [⟨(flowTaskHintWeight s.world k p).1,
      (flowTaskHintWeight s.world.emptyCache k p).1⟩]
    | _ => []

/-- The kernel shows a live task as it is, and gives a pid to one task at a time. -/
def CacheOk (s : Roster) : CacheOp → Prop
  | .move k p _ | .exitTask k p => ∃ t, s.live p = some t ∧ (k.task p).pid = t.pid
  | .hint k p =>
    ∃ t, s.live p = some t ∧ (k.task p).pid = t.pid ∧ (k.task p).cgroup = t.cgroup
  | .start p t => s.live p = none ∧ ∀ q u, s.live q = some u → u.pid = t.pid → t.pid = 0
  | _ => True

end Run

section Cache

/-- The effects that fill the cache. -/
def Effect.isFill : Effect → Bool
  | .cacheFill _ _ => true
  | _ => false

theorem flowCgrpCacheInvalidate_cache {pid pid' : UInt32} {id : UInt64}
    (h : (flowCgrpCacheInvalidate w pid).cgrpCache pid' = some id) :
    w.cgrpCache pid' = some id ∧ (pid' = pid → pid = 0) := by
  unfold flowCgrpCacheInvalidate at h
  split at h
  · rename_i h0
    exact ⟨h, fun _ => h0⟩
  · by_cases he : pid' = pid
    · simp [he] at h
    · exact ⟨by simpa [he] using h, fun h' => absurd h' he⟩

theorem cacheFill_cache {pid pid' : UInt32} {id id' : UInt64}
    (h : (w.cacheFill k pid id).cgrpCache pid' = some id') :
    w.cgrpCache pid' = some id' ∨ (pid' = pid ∧ id' = id) := by
  unfold World.cacheFill at h
  split at h
  · by_cases he : pid' = pid
    · exact Or.inr ⟨he, by simpa [he, eq_comm] using h⟩
    · exact Or.inl (by simpa [he] using h)
  · exact Or.inl h

theorem perform_cache {e : Effect} {pid : UInt32} {id : UInt64} (he : e.isFill = false)
    (h : (w.perform k p e).cgrpCache pid = some id) : w.cgrpCache pid = some id := by
  cases e <;> simp only [World.perform] at h
  case count c n => rwa [flowCount_eq] at h
  case cacheFill pid' id' => cases he
  case cacheInvalidate pid' => exact (flowCgrpCacheInvalidate_cache h).1
  case clearRunningIfOwner cpu pid' => rwa [flowClearRunningIfOwner_eq] at h
  case clearRunning cpu => rwa [flowClearRunning_eq] at h
  case minAdvance cpu v => rwa [flowMinAdvance_eq] at h
  all_goals exact h

theorem run_cache {pid : UInt32} {id : UInt64} :
    ∀ {w : World} (es : List Effect), (∀ e ∈ es, e.isFill = false) →
      (w.run k p es).cgrpCache pid = some id → w.cgrpCache pid = some id
  | _, [], _, h => h
  | w, e :: es, hes, h => by
    rw [run_cons] at h
    exact perform_cache (hes e List.mem_cons_self)
      (run_cache es (fun e' he' => hes e' (List.mem_cons_of_mem e he')) h)

theorem commit_cache {o : OpOut} {pid : UInt32} {id : UInt64}
    (ho : ∀ e ∈ o.eff, e.isFill = false) (h : (w.commit k p o).cgrpCache pid = some id) :
    w.cgrpCache pid = some id := by
  unfold World.commit at h
  have hw := run_cache o.eff ho h
  exact hw

/-- The exit clears the entry of the task's pid, then the owner of its CPU row. -/
theorem flowExitTask_cache {pid : UInt32} {id : UInt64}
    (h : (w.commit k p (flowExitTask w k p)).cgrpCache pid = some id) :
    w.cgrpCache pid = some id ∧ (pid = (k.task p).pid → (k.task p).pid = 0) := by
  have hinv : (flowCgrpCacheInvalidate { w with
      taskCtx := Function.update w.taskCtx p (w.taskCtx p) } (k.task p).pid).cgrpCache pid
        = some id := by
    unfold World.commit flowExitTask at h
    simp only [run_cons, World.perform] at h
    rw [flowClearRunningIfOwner_eq] at h
    exact h
  have hw := flowCgrpCacheInvalidate_cache hinv
  exact hw

theorem EndEff.isFill {ts : TaskStruct} {e : Effect} (h : EndEff ts e) : e.isFill = false := by
  cases h <;> rfl

/-- What a hint call fills in: the id of the hierarchy the task is in. -/
theorem flowTaskHintWeight_fills {pid : UInt32} {id : UInt64}
    (h : (w.run k p (flowTaskHintWeight w k p).2).cgrpCache pid = some id) :
    w.cgrpCache pid = some id
      ∨ (pid = (k.task p).pid ∧ pid ≠ 0 ∧ ∃ c, (k.task p).cgroup = some c
        ∧ id = flowCgrpId (some c)) := by
  rcases flowTaskHintWeight_cases w k p with ⟨-, _, -, hcall⟩ | hcall
  · rw [hcall] at h
    exact Or.inl h
  rw [hcall] at h
  unfold flowTaskHintAcquire at h
  split at h
  · exact Or.inl h
  · rename_i c hc
    simp only at h
    split at h
    · rename_i hpid
      rcases cacheFill_cache h with h | ⟨rfl, rfl⟩
      · exact Or.inl h
      · exact Or.inr ⟨rfl, hpid, c, hc, rfl⟩
    · exact Or.inl h

end Cache

section Coherence

/-- A pid names one live task, and what is cached under it is the hierarchy that task is in. -/
structure Coherent (s : Roster) : Prop where
  pids : ∀ p q t u, s.live p = some t → s.live q = some u → t.pid = u.pid → t.pid ≠ 0 → p = q
  cached : ∀ pid id, s.world.cgrpCache pid = some id →
    ∃ p c, pid ≠ 0 ∧ s.live p = some ⟨pid, some c⟩ ∧ id = flowCgrpId (some c)

theorem Coherent.of_cache {s : Roster} (h : Coherent s) {w' : World}
    (hw : ∀ pid id, w'.cgrpCache pid = some id → s.world.cgrpCache pid = some id) :
    Coherent { s with world := w' } :=
  ⟨h.pids, fun pid id hid => h.cached pid id (hw pid id hid)⟩

theorem Coherent.hierarchy {s : Roster} (h : Coherent s) (k : Kernel) {op : Op}
    (hop : ∃ stor, s.world.step ⟨k, op⟩ = { s.world with hintStor := stor }) :
    Coherent { s with world := s.world.step ⟨k, op⟩ } := by
  obtain ⟨stor, heq⟩ := hop
  exact h.of_cache fun pid id hid => by rwa [heq] at hid

/-- A move and an exit clear the entry of the pid, so what they change of the task is not cached. -/
theorem Coherent.replace {s : Roster} (h : Coherent s) {p : TaskRef} {t : LiveTask} {w' : World}
    (ht : s.live p = some t) (new : Option LiveTask) (hnew : ∀ u, new = some u → u.pid = t.pid)
    (hw : ∀ pid id, w'.cgrpCache pid = some id →
      s.world.cgrpCache pid = some id ∧ (pid = t.pid → t.pid = 0)) :
    Coherent ⟨w', Function.update s.live p new⟩ := by
  have hpid (q : TaskRef) (u : LiveTask) (hu : Function.update s.live p new q = some u) :
      ∃ u', s.live q = some u' ∧ u'.pid = u.pid := by
    by_cases hq : q = p
    · subst hq
      rw [Function.update_self] at hu
      exact ⟨t, ht, (hnew u hu).symm⟩
    · rw [Function.update_of_ne hq] at hu
      exact ⟨u, hu, rfl⟩
  refine ⟨fun a b u v hu hv he h0 => ?_, fun pid id hid => ?_⟩
  · obtain ⟨u', hu', hpu⟩ := hpid a u hu
    obtain ⟨v', hv', hpv⟩ := hpid b v hv
    exact h.pids a b u' v' hu' hv' (by rw [hpu, hpv, he]) (by rw [hpu]; exact h0)
  · obtain ⟨hcached, hcleared⟩ := hw pid id hid
    obtain ⟨q, c, h0, hq, rfl⟩ := h.cached pid id hcached
    have hne : q ≠ p := by
      rintro rfl
      have hpt : t = ⟨pid, some c⟩ := Option.some.inj (ht.symm.trans hq)
      have hpid' : pid = t.pid := by rw [hpt]
      exact h0 (hpid'.trans (hcleared hpid'))
    exact ⟨q, c, h0, (Function.update_of_ne hne new s.live).trans hq, rfl⟩

theorem Coherent.start {s : Roster} (h : Coherent s) {p : TaskRef} {t : LiveTask}
    (hp : s.live p = none) (hfree : ∀ q u, s.live q = some u → u.pid = t.pid → t.pid = 0) :
    Coherent { s with live := Function.update s.live p (some t) } := by
  have hold (q : TaskRef) (u : LiveTask) (hu : Function.update s.live p (some t) q = some u) :
      (q = p ∧ u = t) ∨ s.live q = some u := by
    by_cases hq : q = p
    · subst hq
      rw [Function.update_self] at hu
      exact Or.inl ⟨rfl, (Option.some.inj hu).symm⟩
    · rw [Function.update_of_ne hq] at hu
      exact Or.inr hu
  refine ⟨fun a b u v hu hv he h0 => ?_, fun pid id hid => ?_⟩
  · rcases hold a u hu with ⟨rfl, rfl⟩ | hu'
    · rcases hold b v hv with ⟨rfl, rfl⟩ | hv'
      · rfl
      · exact absurd (hfree b v hv' he.symm) h0
    · rcases hold b v hv with ⟨rfl, rfl⟩ | hv'
      · exact absurd (he.trans (hfree a u hu' he)) h0
      · exact h.pids a b u v hu' hv' he h0
  · obtain ⟨q, c, h0, hq, rfl⟩ := h.cached pid id hid
    have hne : q ≠ p := by
      rintro rfl
      rw [hp] at hq
      cases hq
    exact ⟨q, c, h0, by simpa [hne] using hq, rfl⟩

theorem Coherent.hint {s : Roster} (h : Coherent s) {k : Kernel} {p : TaskRef} {t : LiveTask}
    (ht : s.live p = some t) (hpid : (k.task p).pid = t.pid)
    (hcgrp : (k.task p).cgroup = t.cgroup) :
    Coherent { s with world := s.world.run k p (flowTaskHintWeight s.world k p).2 } := by
  refine ⟨h.pids, fun pid id hid => ?_⟩
  rcases flowTaskHintWeight_fills hid with hid | ⟨rfl, h0, c, hc, rfl⟩
  · exact h.cached pid id hid
  · refine ⟨p, c, h0, ?_, rfl⟩
    rw [ht, hpid, ← hc, hcgrp]

theorem Coherent.step {s : Roster} (h : Coherent s) {l : CacheOp} (hok : CacheOk s l) :
    Coherent (s.step l) := by
  cases l with
  | cgroupInit k cgrp =>
    refine h.hierarchy k ?_
    show ∃ stor, (flowCgroupInit s.world k cgrp).toOption.getD s.world = _
    rcases flowCgroupInit_cases s.world k cgrp with heq | ⟨id, heq⟩
    · rw [heq]
      exact ⟨_, rfl⟩
    · rw [heq, hintUpdate_eq]
      exact ⟨_, rfl⟩
  | cgroupExit k cgrp =>
    refine h.hierarchy k ?_
    show ∃ stor, flowCgroupExit s.world cgrp = _
    rcases flowCgroupExit_cases s.world cgrp with heq | ⟨id, heq⟩
    · rw [heq]
      exact ⟨_, rfl⟩
    · rw [heq]
      exact ⟨_, rfl⟩
  | cgroupSetWeight k cgrp weight =>
    refine h.hierarchy k ?_
    show ∃ stor, flowCgroupSetWeight s.world k cgrp weight = _
    rcases flowCgroupSetWeight_cases s.world k cgrp weight with heq | ⟨id, heq⟩
    · rw [heq]
      exact ⟨_, rfl⟩
    · rw [heq, hintUpdate_eq]
      exact ⟨_, rfl⟩
  | enable k p =>
    exact h.of_cache fun pid id hid =>
      commit_cache (fun e he => (flowEnable_ends s.world k p e he).isFill) hid
  | disable k p =>
    exact h.of_cache fun pid id hid =>
      commit_cache (fun e he => (flowDisable_ends s.world k p e he).isFill) hid
  | move k p dst =>
    obtain ⟨t, ht, hpid⟩ := hok
    refine h.replace ht _ (fun u hu => ?_) fun pid id hid => ?_
    · rw [ht] at hu
      rw [← Option.some.inj hu]
    · rw [← hpid]
      exact flowCgrpCacheInvalidate_cache hid
  | exitTask k p =>
    obtain ⟨t, ht, hpid⟩ := hok
    refine h.replace ht none (fun u hu => by cases hu) fun pid id hid => ?_
    rw [← hpid]
    exact flowExitTask_cache hid
  | start p t => exact h.start hok.1 hok.2
  | hint k p =>
    obtain ⟨t, ht, hpid, hcgrp⟩ := hok
    exact h.hint ht hpid hcgrp

/-- With a coherent cache a hint call answers what it would with an empty one. -/
theorem Coherent.answers {s : Roster} (h : Coherent s) {k : Kernel} {p : TaskRef} {t : LiveTask}
    (ht : s.live p = some t) (hpid : (k.task p).pid = t.pid)
    (hcgrp : (k.task p).cgroup = t.cgroup) :
    (flowTaskHintWeight s.world k p).1 = (flowTaskHintWeight s.world.emptyCache k p).1 := by
  have hread : (flowTaskHintWeight s.world.emptyCache k p).1
      = (flowTaskHintAcquire s.world (k.task p)).1 := by
    unfold flowTaskHintWeight flowTaskHintAcquire
    simp only
    split
    · rfl
    · rfl
  rw [hread]
  rcases flowTaskHintWeight_cases s.world k p with ⟨-, id, hid, hcall⟩ | hcall
  · obtain ⟨q, c, h0, hq, rfl⟩ := h.cached _ id hid
    have hqp : q = p := h.pids q p _ t hq ht hpid h0
    subst hqp
    have hc : (k.task q).cgroup = some c := by
      rw [hcgrp, Option.some.inj (ht.symm.trans hq)]
    rw [hcall]
    unfold flowTaskHintAcquire
    rw [hc]
  · rw [hcall]

/-- In every run of hierarchy ops, moves, enables, disables, exits, reuses of a pid and hint calls,
from an empty cache, every hint call answers what it would with an empty cache. -/
theorem hintCalls_coherent (s : Roster) (hcache : ∀ pid, s.world.cgrpCache pid = none)
    (hpids : ∀ p q t u, s.live p = some t → s.live q = some u → t.pid = u.pid → t.pid ≠ 0 → p = q)
    (ls : List CacheOp) (hok : hintCalls.Along CacheOk s ls) :
    ∀ a ∈ hintCalls.log s ls, a.cached = a.uncached := by
  have hstart : Coherent s := ⟨hpids, fun pid id hid => by simp [hcache] at hid⟩
  have hrun := hintCalls.invariant
    (I := fun s h => Coherent s ∧ ∀ a ∈ h, a.cached = a.uncached)
    (fun s l h hl hi => by
      refine ⟨hi.1.step hl, fun a ha => ?_⟩
      rcases List.mem_append.mp ha with ha | ha
      · exact hi.2 a ha
      · cases l with
        | hint k p =>
          obtain ⟨t, ht, hpid, hcgrp⟩ := hl
          rw [List.mem_singleton.mp ha]
          exact hi.1.answers ht hpid hcgrp
        | _ => cases ha) ls hok (h := []) ⟨hstart, by simp⟩
  simpa using hrun.2

/-- A view that shows every task as `t`. -/
def Kernel.showing (t : LiveTask) : Kernel :=
  { Kernel.plain 1000 with
    task := fun p => { TaskStruct.plain p with pid := t.pid, cgroup := t.cgroup } }

/-- Pid 7 reads its hint in one hierarchy, moves to another, reads it again and exits; then a new
task takes the pid in the first hierarchy and reads its own. -/
def pidReused : List CacheOp :=
  let before : LiveTask := ⟨7, some ⟨some 5⟩⟩
  let after : LiveTask := ⟨7, some ⟨some 6⟩⟩
  [.start 1 before, .cgroupSetWeight (.showing before) (some ⟨some 6⟩) 600,
    .hint (.showing before) 1, .move (.showing after) 1 ⟨some 6⟩, .hint (.showing after) 1,
    .exitTask (.showing after) 1, .start 2 before, .hint (.showing before) 2]

/-- The second call answers the band of the new hierarchy, and the third, of the other holder of
the pid, none. -/
theorem hintCalls_coherent_reused :
    (hintCalls.log ⟨World.boot 2 1 fun _ => 0, fun _ => none⟩ pidReused).map HintAnswer.cached
        = [(0, 128), (4000, 1024), (0, 128)]
      ∧ ∀ a ∈ hintCalls.log ⟨World.boot 2 1 fun _ => 0, fun _ => none⟩ pidReused,
        a.cached = a.uncached := by
  refine ⟨rfl, hintCalls_coherent ⟨World.boot 2 1 fun _ => 0, fun _ => none⟩ (fun _ => rfl)
    (fun p q t u h => by cases h) pidReused ?_⟩
  refine ⟨⟨rfl, fun q u h => by cases h⟩, trivial, ⟨_, rfl, rfl, rfl⟩, ⟨_, rfl, rfl⟩,
    ⟨_, rfl, rfl, rfl⟩, ⟨_, rfl, rfl⟩, ⟨rfl, fun q u h => ?_⟩, ⟨_, rfl, rfl, rfl⟩, trivial⟩
  simp [hintCalls, Roster.step] at h

end Coherence

end ScxFlow
