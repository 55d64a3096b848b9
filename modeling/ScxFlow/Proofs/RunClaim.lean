import ScxFlow.Lib.Epoch
import ScxFlow.System
import ScxFlow.Proofs.Effects
import ScxFlow.Proofs.Segment
import ScxFlow.Proofs.Words

/-!
# The run claim over interleavings

A running task claims its start from zero and a stop takes it back to zero, so every claim is charged
at most once.  A gate that is closed to a stop leaves the claim and the owner as they were, which is
why the interval charged is the one of the claim (`runClaim_protocol`).
-/

namespace ScxFlow

section SixOps

def Call.isRunOp (c : Call) : Bool :=
  match c.op with
  | .running _ | .stopping _ _ | .enable _ | .disable _ | .exitTask _ | .cpuRelease _ => true
  | _ => false

/-- The state and the clock of the last op. -/
structure RunState where
  world : World
  clock : UInt64

/-- An event of one task's segments: a start claimed, `delta` from a start charged, or a stop past
its gate, each with its clock. -/
inductive RunEv
  | claimed (now : UInt64)
  | charged (start delta now : UInt64)
  | stopped (now : UInt64)
  deriving DecidableEq

def RunEv.opens : RunEv → Option UInt64
  | .claimed now => some now
  | _ => none

def RunEv.isCharge : RunEv → Bool
  | .charged _ _ _ => true
  | _ => false

def runEvents (now : UInt64) (es : List Effect) : List RunEv :=
  es.filterMap fun e => match e with
    | .claimRun _ => some (.claimed now)
    | .takeRun start delta => some (.charged start delta now)
    | _ => none

/-- A call is a stop of `p` past its gate. -/
def stopPasses (p : TaskRef) (w : World) (c : Call) : Bool :=
  match c.op with
  | .stopping q _ => decide (q = p) && flowEntryOk w (c.view.task p) (c.view.task p).taskCpu 0
  | _ => false

/-- What a call logs of `p`. -/
def Call.runEvents (p : TaskRef) (w : World) (c : Call) : List RunEv :=
  match c.op.onTask w c.view with
  | some (q, o) =>
    if q = p then
      ScxFlow.runEvents c.view.now o.eff ++ if stopPasses p w c then [.stopped c.view.now] else []
    else []
  | none => []

/-- The scheduler with the segments of `p` on its log. -/
def runMachine (p : TaskRef) : Machine RunState Call RunEv where
  step s c := ⟨s.world.step c, c.view.now⟩
  out s c := c.runEvents p s.world

/-- One of the six ops under a clock that is not zero and never runs back. -/
def RunCall (s : RunState) (c : Call) : Prop :=
  c.isRunOp = true ∧ c.view.now ≠ 0 ∧ s.clock ≤ c.view.now

instance (s : RunState) (c : Call) : Decidable (RunCall s c) :=
  inferInstanceAs (Decidable (_ ∧ _ ∧ _))

/-- The claimed start in a storage, zero where there is none. -/
def runAtOf : Option FlowTaskCtx → UInt64
  | none => 0
  | some t => t.runAt

/-- The owner of a row. -/
def owner (w : World) (cpu : ℕ) : UInt32 := (w.cpuState cpu).runningPid

/-- A call stores `pid` into the row of `cpu`. -/
def storesOwner (w : World) (c : Call) (cpu : ℕ) (pid : UInt32) : Prop :=
  ∃ q, c.op = .running q ∧ (c.view.task q).pid = pid ∧ (c.view.task q).taskCpu = cpu
    ∧ flowEntryOk w (c.view.task q) cpu 0 = true

/-- A call is a stop on `cpu`, past its gate, of a task with `pid`. -/
def stopsOwner (w : World) (c : Call) (cpu : ℕ) (pid : UInt32) : Prop :=
  ∃ q, stopPasses q w c = true ∧ (c.view.task q).pid = pid ∧ (c.view.task q).taskCpu = cpu

/-- The row of `cpu` names `pid` since a running stored it there, and no stop has passed there. -/
def OwnedSince (s : World) (calls : List Call) (cpu : ℕ) (pid : UInt32) : Prop :=
  ∃ pre c mid, calls = pre ++ c :: mid ∧ storesOwner (system.exec s pre) c cpu pid
    ∧ ∀ m₁ d m₂, mid = m₁ ++ d :: m₂ →
      ¬ stopsOwner (system.exec s (pre ++ c :: m₁)) d cpu pid

end SixOps

section Owner

variable {w : World} {k : Kernel} {p : TaskRef}

/-- The store of an owner. -/
def Effect.isStore : Effect → Bool
  | .setRunning _ _ => true
  | _ => false

theorem owner_setCpu (w : World) (d : ℕ) (pid : UInt32) (cpu : ℕ) :
    owner (w.setCpu d { w.cpuState d with runningPid := pid }) cpu
      = if cpu = d then pid else owner w cpu := by
  unfold owner World.setCpu
  by_cases hc : cpu = d
  · subst hc
    simp
  · simp [hc]

theorem owner_clear (w : World) (d cpu : ℕ) :
    owner (w.setCpu d { w.cpuState d with runningPid := 0 }) cpu = owner w cpu
      ∨ owner (w.setCpu d { w.cpuState d with runningPid := 0 }) cpu = 0 := by
  rw [owner_setCpu]
  split
  · exact Or.inr rfl
  · exact Or.inl rfl

theorem flowClearRunning_owner (w : World) (d : ℤ) (cpu : ℕ) :
    owner (flowClearRunning w d) cpu = owner w cpu ∨ owner (flowClearRunning w d) cpu = 0 := by
  unfold flowClearRunning
  split_ifs
  · exact Or.inl rfl
  · exact Or.inl rfl
  · exact owner_clear w _ cpu

theorem perform_owner (e : Effect) (cpu : ℕ) :
    owner (w.perform k p e) cpu = owner w cpu ∨ owner (w.perform k p e) cpu = 0
      ∨ ∃ pid, e = .setRunning cpu pid ∧ owner (w.perform k p e) cpu = pid := by
  cases e
  case setRunning d pid =>
    rw [World.perform, owner_setCpu]
    by_cases hc : cpu = d
    · subst hc
      exact Or.inr (Or.inr ⟨pid, rfl, if_pos rfl⟩)
    · rw [if_neg hc]
      exact Or.inl rfl
  case clearRunningIfOwner d pid =>
    rw [World.perform]
    unfold flowClearRunningIfOwner
    split_ifs
    · exact Or.inl rfl
    · exact Or.inl rfl
    · exact Or.inl rfl
    · exact (owner_clear w _ cpu).imp_right Or.inl
    · exact Or.inl rfl
  case clearRunning d =>
    rw [World.perform]
    exact (flowClearRunning_owner w d cpu).imp_right Or.inl
  case minAdvance d v =>
    rw [World.perform]
    unfold flowMinAdvance
    simp only
    split_ifs
    · exact Or.inl rfl
    · exact Or.inl rfl
    · exact Or.inl rfl
    · exact Or.inl rfl
    · exact Or.inl rfl
    · refine Or.inl ?_
      unfold owner World.setCpu
      by_cases hc : cpu = d.toNat
      · subst hc
        simp
      · simp [hc]
  all_goals
    unfold owner
    rw [perform_cpuState w k p rfl]
    exact Or.inl rfl

theorem run_owner (cpu : ℕ) :
    ∀ (es : List Effect) (w : World), owner (w.run k p es) cpu = owner w cpu
      ∨ owner (w.run k p es) cpu = 0
      ∨ ∃ pid, .setRunning cpu pid ∈ es ∧ owner (w.run k p es) cpu = pid
  | [], _ => Or.inl rfl
  | e :: es, w => by
    rw [run_cons]
    rcases run_owner cpu es (w.perform k p e) with h | h | ⟨pid, hm, h⟩
    · rcases perform_owner (w := w) (k := k) (p := p) e cpu with h' | h' | ⟨pid, rfl, h'⟩
      · exact Or.inl (h.trans h')
      · exact Or.inr (Or.inl (h.trans h'))
      · exact Or.inr (Or.inr ⟨pid, List.mem_cons_self, h.trans h'⟩)
    · exact Or.inr (Or.inl h)
    · exact Or.inr (Or.inr ⟨pid, List.mem_cons_of_mem e hm, h⟩)

theorem flowClearRunningIfOwner_ne {cpu : ℕ} {pid : UInt32} (hl : flowCpuLive w cpu = true)
    (hp : pid ≠ 0) : owner (flowClearRunningIfOwner w cpu pid) cpu ≠ pid := by
  unfold flowClearRunningIfOwner
  rw [if_neg (by omega), if_neg hp]
  simp only [Int.toNat_natCast, hl, Bool.not_true, Bool.false_eq_true, ↓reduceIte]
  split
  · rw [owner_setCpu, if_pos rfl]
    exact fun h => hp h.symm
  · assumption

theorem run_clear_ne {es pre post : List Effect} {cpu : ℕ} {pid : UInt32}
    (hes : es = pre ++ .clearRunningIfOwner cpu pid :: post)
    (hl : flowCpuLive w cpu = true) (hp : pid ≠ 0) (hs : ∀ e ∈ es, e.isStore = false) :
    owner (w.run k p es) cpu ≠ pid := by
  have hlive : flowCpuLive (w.run k p pre) cpu = true := by
    rw [flowCpuLive_iff, run_nrCpuIds]
    exact flowCpuLive_iff.mp hl
  have hclear := flowClearRunningIfOwner_ne hlive hp
  have hrun : w.run k p es
      = (flowClearRunningIfOwner (w.run k p pre) cpu pid).run k p post := by
    rw [hes, run_append, run_cons]
    rfl
  rw [hrun]
  rcases run_owner (k := k) (p := p) cpu post
    (flowClearRunningIfOwner (w.run k p pre) cpu pid) with h | h | ⟨pid', hm, -⟩
  · rw [h]
    exact hclear
  · rw [h]
    exact fun h => hp h.symm
  · have hstore := hs (.setRunning cpu pid') (by simp [hes, hm])
    simp [Effect.isStore] at hstore

theorem mem_ownerEffect {ts : TaskStruct} {cpu : ℕ} {pid : UInt32}
    (h : .setRunning cpu pid ∈ ownerEffect w ts) : ts.taskCpu = cpu ∧ ts.pid = pid := by
  unfold ownerEffect at h
  split at h
  · simp at h
  · split at h
    · simp at h
    · simp only [List.mem_singleton, Effect.setRunning.injEq] at h
      obtain ⟨rfl, rfl⟩ := h
      exact ⟨by omega, rfl⟩

theorem EndEff.isStore {ts : TaskStruct} {e : Effect} (h : EndEff ts e) : e.isStore = false := by
  cases h <;> rfl

theorem commit_owner {o : OpOut} (h : ∀ e ∈ o.eff, e.isStore = false) (cpu : ℕ) :
    owner (w.commit k p o) cpu = owner w cpu ∨ owner (w.commit k p o) cpu = 0 := by
  rcases run_owner (k := k) (p := p) cpu o.eff
    { w with taskCtx := Function.update w.taskCtx p o.ctx } with h' | h' | ⟨pid, hm, -⟩
  · exact Or.inl h'
  · exact Or.inr h'
  · have hstore := h _ hm
    simp [Effect.isStore] at hstore

theorem StopEff.clears {ts : TaskStruct} {c : FlowTaskCtx} {now delta : UInt64} {runnable : Bool}
    {es : List Effect} (h : StopEff ts c now delta runnable es) :
    .clearRunningIfOwner ts.taskCpu ts.pid ∈ es := by
  cases h with
  | requeue => simp
  | complete hcredit => simp

theorem flowStopping_isStore (w : World) (k : Kernel) (p : TaskRef) (runnable : Bool) :
    ∀ e ∈ (flowStopping w k p runnable).eff, e.isStore = false := by
  intro e he
  rcases flowStopping_ends w k p runnable e he with ⟨start, delta, rfl⟩ | he
  · rfl
  · exact he.isStore

theorem flowStopping_owner {cpu : ℕ} {runnable : Bool} (hcpu : (k.task p).taskCpu = cpu)
    (hgate : flowEntryOk w (k.task p) (k.task p).taskCpu 0 = true) (hp : (k.task p).pid ≠ 0) :
    owner (w.commit k p (flowStopping w k p runnable)) cpu ≠ (k.task p).pid := by
  have hlive : flowCpuLive w cpu = true := flowCpuLive_of_entryOk hcpu hgate
  have hstore := flowStopping_isStore w k p runnable
  have hclears : .clearRunningIfOwner cpu (k.task p).pid ∈ (flowStopping w k p runnable).eff := by
    rw [← hcpu]
    rcases flowStopping_cases w k p runnable with ⟨hclosed, -⟩ | ⟨-, -, -, heq⟩ |
      ⟨t, t', es, -, -, -, -, heq, -, heff⟩
    · rw [hclosed] at hgate
      exact absurd hgate Bool.false_ne_true
    · rw [heq]
      exact List.mem_singleton_self _
    · rw [heq]
      exact List.mem_cons_of_mem _ heff.clears
  obtain ⟨pre, post, hes⟩ := List.append_of_mem hclears
  exact run_clear_ne hes hlive hp hstore

/-- Each op keeps an owner, clears it, or stores one past its gate. -/
theorem step_owner {c : Call} (hc : c.isRunOp = true) (cpu : ℕ) :
    owner (w.step c) cpu = owner w cpu ∨ owner (w.step c) cpu = 0
      ∨ storesOwner w c cpu (owner (w.step c) cpu) := by
  obtain ⟨k, op⟩ := c
  cases op with
  | running p =>
    rcases run_owner (k := k) (p := p) cpu (flowRunning w k p).eff
      { w with taskCtx := Function.update w.taskCtx p (flowRunning w k p).ctx }
      with h | h | ⟨pid, hm, h⟩
    · exact Or.inl h
    · exact Or.inr (Or.inl h)
    · refine Or.inr (Or.inr ?_)
      show storesOwner w _ cpu (owner (w.commit k p (flowRunning w k p)) cpu)
      rw [World.commit, h]
      rcases hg : flowEntryOk w (k.task p) (k.task p).taskCpu 0 with _ | _
      · rw [flowRunning_of_closed hg] at hm
        simp at hm
      · have hown : Effect.setRunning cpu pid ∈ ownerEffect w (k.task p) := by
          rcases flowRunning_of_open hg with ⟨t, -, -, heq⟩ | ⟨-, heq⟩
          · rw [heq] at hm
            simpa using hm
          · rw [heq] at hm
            exact hm
        obtain ⟨hcpu, rfl⟩ := mem_ownerEffect hown
        exact ⟨p, rfl, rfl, hcpu, by rw [← hcpu]; exact hg⟩
  | stopping p runnable =>
    exact (commit_owner (flowStopping_isStore w k p runnable) cpu).imp_right Or.inl
  | enable p =>
    exact (commit_owner (fun e he => (flowEnable_ends w k p e he).isStore) cpu).imp_right Or.inl
  | disable p =>
    exact (commit_owner (fun e he => (flowDisable_ends w k p e he).isStore) cpu).imp_right Or.inl
  | exitTask p =>
    exact (commit_owner (fun e he => (flowExitTask_ends w k p e he).isStore) cpu).imp_right Or.inl
  | cpuRelease d =>
    show owner (flowCpuRelease w k d) cpu = _ ∨ owner (flowCpuRelease w k d) cpu = 0 ∨ _
    unfold flowCpuRelease
    split
    · rw [flowCount_eq]
      exact Or.inl rfl
    · exact (flowClearRunning_owner w d cpu).imp_right Or.inl
  | _ => simp [Call.isRunOp] at hc

end Owner

section RunOwners

/-- A row names the task with `pid`; zero names none. -/
def names (w : World) (cpu : ℕ) (pid : UInt32) : Prop := pid ≠ 0 ∧ owner w cpu = pid

theorem not_names_of_stopsOwner {w : World} {c : Call} {cpu : ℕ} {pid : UInt32}
    (h : stopsOwner w c cpu pid) : ¬ names (w.step c) cpu pid := by
  obtain ⟨q, hpass, rfl, hcpu⟩ := h
  obtain ⟨k, op⟩ := c
  rintro ⟨hp, hown⟩
  cases op with
  | stopping q' runnable =>
    obtain ⟨rfl, hgate⟩ : q' = q ∧ flowEntryOk w (k.task q) (k.task q).taskCpu 0 = true := by
      simpa [stopPasses] using hpass
    exact flowStopping_owner hcpu hgate hp hown
  | _ => simp [stopPasses] at hpass

/-- A row that an op leaves naming a task named it before, or the op stored it. -/
theorem OwnedSince.step {w : World} {calls : List Call} {c : Call} {cpu : ℕ} {pid : UInt32}
    (hc : c.isRunOp = true) (hi : names (system.exec w calls) cpu pid → OwnedSince w calls cpu pid)
    (h : names (system.exec w (calls ++ [c])) cpu pid) : OwnedSince w (calls ++ [c]) cpu pid := by
  rw [system.exec_snoc] at h
  obtain ⟨hp, hown⟩ := h
  rcases step_owner (w := system.exec w calls) hc cpu with hkeep | hzero | hstore
  · obtain ⟨pre, c₀, mid, rfl, hs, hmid⟩ := hi ⟨hp, hkeep.symm.trans hown⟩
    refine ⟨pre, c₀, mid ++ [c], by simp, hs, ?_⟩
    intro m₁ d m₂ he hstop
    rcases List.eq_nil_or_concat m₂ with rfl | ⟨m, x, rfl⟩
    · obtain ⟨rfl, hd⟩ := List.append_inj' he rfl
      obtain rfl : c = d := by simpa using hd
      exact not_names_of_stopsOwner hstop ⟨hp, hown⟩
    · have hsplit : mid ++ [c] = (m₁ ++ d :: m) ++ [x] := by simpa using he
      obtain ⟨rfl, -⟩ := List.append_inj' hsplit rfl
      exact hmid m₁ d m rfl hstop
  · exact absurd (hown.symm.trans hzero) hp
  · refine ⟨calls, c, [], rfl, ?_, by simp⟩
    rw [← hown]
    exact hstore

end RunOwners

/-- What one op does to the claimed start of `p`. -/
inductive RunStep (p : TaskRef) (w : World) (c : Call) : Prop
  /-- It neither claims nor takes a start, and may reset it. -/
  | quiet (hr : runAtOf ((w.step c).taskCtx p) = runAtOf (w.taskCtx p)
      ∨ runAtOf ((w.step c).taskCtx p) = 0)
    (ho : c.runEvents p w = [])
  /-- It claims the start. -/
  | claim (h0 : runAtOf (w.taskCtx p) = 0)
    (hr : runAtOf ((w.step c).taskCtx p) = flowRunStamp c.view.now)
    (ho : c.runEvents p w = [.claimed c.view.now])
  /-- It stops past its gate with no start to take. -/
  | stop (hr : runAtOf ((w.step c).taskCtx p) = 0)
    (ho : c.runEvents p w = [.stopped c.view.now])
  /-- It stops past its gate and charges the start it takes. -/
  | charge (h0 : runAtOf (w.taskCtx p) ≠ 0) (hr : runAtOf ((w.step c).taskCtx p) = 0)
    (ho : c.runEvents p w = [.charged (runAtOf (w.taskCtx p))
      (flowStopDelta c.view.now (runAtOf (w.taskCtx p))) c.view.now, .stopped c.view.now])

/-- A claim or a take of a start. -/
def Effect.isRun : Effect → Bool
  | .claimRun _ => true
  | .takeRun _ _ => true
  | _ => false

theorem runEvents_eq_nil {now : UInt64} {es : List Effect} (h : ∀ e ∈ es, e.isRun = false) :
    runEvents now es = [] := by
  unfold runEvents
  rw [List.filterMap_eq_nil_iff]
  intro e he
  have hrun := h e he
  cases e <;> simp_all [Effect.isRun]

theorem EndEff.isRun {ts : TaskStruct} {e : Effect} (h : EndEff ts e) : e.isRun = false := by
  cases h <;> rfl

theorem ownerEffect_runEvents (w : World) (ts : TaskStruct) (now : UInt64) :
    runEvents now (ownerEffect w ts) = [] := by
  refine runEvents_eq_nil fun e he => ?_
  obtain ⟨cpu, rfl⟩ := exists_of_mem_ownerEffect he
  rfl

section Step

variable {p : TaskRef} {w : World} {k : Kernel}

theorem runStep_other {op : Op} {q : TaskRef} {o : OpOut} (hq : q ≠ p)
    (h : op.onTask w k = some (q, o)) : RunStep p w ⟨k, op⟩ := by
  refine .quiet (Or.inl ?_) ?_
  · rw [World.step_onTask h, commit_taskCtx, Function.update_of_ne hq.symm]
  · unfold Call.runEvents
    rw [h]
    exact if_neg hq

/-- An op on `p` that is no stop past its gate, keeps or resets the start, and has no event. -/
theorem runStep_quiet {op : Op} {o : OpOut} (h : op.onTask w k = some (p, o))
    (hpass : stopPasses p w ⟨k, op⟩ = false)
    (hr : runAtOf o.ctx = runAtOf (w.taskCtx p) ∨ runAtOf o.ctx = 0)
    (he : ∀ e ∈ o.eff, e.isRun = false) : RunStep p w ⟨k, op⟩ := by
  refine .quiet ?_ ?_
  · rw [World.step_onTask h, commit_taskCtx, Function.update_self]
    exact hr
  · unfold Call.runEvents
    rw [h]
    simp [runEvents_eq_nil he, hpass]

theorem flowEnable_runAt (w : World) (k : Kernel) (p : TaskRef) :
    runAtOf (flowEnable w k p).ctx = runAtOf (w.taskCtx p)
      ∨ runAtOf (flowEnable w k p).ctx = 0 := by
  rcases flowEnable_ctx w k p with he | he
  · exact Or.inl (by rw [he])
  · exact Or.inr (by rw [he]; rfl)

theorem runStep_running : RunStep p w ⟨k, .running p⟩ := by
  have hev : Call.runEvents p w ⟨k, .running p⟩ = runEvents k.now (flowRunning w k p).eff := by
    simp [Call.runEvents, Op.onTask, stopPasses]
  have hctx : ((w.step ⟨k, .running p⟩).taskCtx p) = (flowRunning w k p).ctx := by
    rw [World.step_onTask rfl, commit_taskCtx, Function.update_self]
  rcases hg : flowEntryOk w (k.task p) (k.task p).taskCpu 0 with _ | _
  · have heq := flowRunning_of_closed hg
    refine .quiet (Or.inl ?_) ?_
    · rw [hctx, heq]
    · rw [hev, heq]
      rfl
  · rcases flowRunning_of_open hg with ⟨t, ht, h0, heq⟩ | ⟨-, heq⟩
    · refine .claim ?_ ?_ ?_
      · rw [ht]
        exact h0
      · rw [hctx, heq]
        rfl
      · rw [hev, heq]
        show .claimed k.now :: runEvents k.now (ownerEffect w (k.task p)) = _
        rw [ownerEffect_runEvents]
    · refine .quiet (Or.inl ?_) ?_
      · rw [hctx, heq]
      · rw [hev, heq, ownerEffect_runEvents]

theorem runStep_stopping (runnable : Bool) : RunStep p w ⟨k, .stopping p runnable⟩ := by
  have hev : Call.runEvents p w ⟨k, .stopping p runnable⟩
      = runEvents k.now (flowStopping w k p runnable).eff
        ++ if flowEntryOk w (k.task p) (k.task p).taskCpu 0 then [.stopped k.now] else [] := by
    simp [Call.runEvents, Op.onTask, stopPasses]
  have hctx : ((w.step ⟨k, .stopping p runnable⟩).taskCtx p)
      = (flowStopping w k p runnable).ctx := by
    rw [World.step_onTask rfl, commit_taskCtx, Function.update_self]
  rcases flowStopping_cases w k p runnable with ⟨hg, -, heq⟩ | ⟨hg, -, h0, heq⟩ |
    ⟨t, t', es, hg, -, ht, h0, heq, hstop, heff⟩
  · refine .quiet (Or.inl ?_) ?_
    · rw [hctx, heq]
    · rw [hev, heq, hg]
      rfl
  · refine .stop ?_ ?_
    · rw [hctx, heq]
      show runAtOf (w.taskCtx p) = 0
      rcases ht : w.taskCtx p with _ | t
      · rfl
      · exact h0 t ht
    · rw [hev, heq, hg]
      rfl
  · refine .charge ?_ ?_ ?_
    · rw [ht]
      exact h0
    · rw [hctx, heq]
      exact hstop.runAt
    · rw [hev, heq, hg, ht]
      show .charged _ _ _ :: runEvents k.now es ++ _ = _
      rw [runEvents_eq_nil fun e he => (heff.ends e he).isRun]
      rfl

theorem runStep {c : Call} (hc : c.isRunOp = true) : RunStep p w c := by
  obtain ⟨k, op⟩ := c
  cases op with
  | running q =>
    by_cases hq : q = p
    · subst hq
      exact runStep_running
    · exact runStep_other hq rfl
  | stopping q runnable =>
    by_cases hq : q = p
    · subst hq
      exact runStep_stopping runnable
    · exact runStep_other hq rfl
  | enable q =>
    by_cases hq : q = p
    · subst hq
      exact runStep_quiet rfl rfl (flowEnable_runAt w k q)
        fun e he => (flowEnable_ends w k q e he).isRun
    · exact runStep_other hq rfl
  | disable q =>
    by_cases hq : q = p
    · subst hq
      exact runStep_quiet rfl rfl (Or.inl (by rw [flowDisable_ctx]))
        fun e he => (flowDisable_ends w k q e he).isRun
    · exact runStep_other hq rfl
  | exitTask q =>
    by_cases hq : q = p
    · subst hq
      exact runStep_quiet rfl rfl (Or.inl rfl) fun e he => (flowExitTask_ends w k q e he).isRun
    · exact runStep_other hq rfl
  | cpuRelease d =>
    refine .quiet (Or.inl ?_) rfl
    show runAtOf ((flowCpuRelease w k d).taskCtx p) = _
    unfold flowCpuRelease
    split
    · rw [flowCount_eq]
    · rw [flowClearRunning_eq]
  | _ => simp [Call.isRunOp] at hc

end Step

section Invariant

/-- What a charge took lies between its claim at `m` and its stop at `n`. -/
def Within (m start delta n : UInt64) : Prop :=
  start = flowRunStamp m
    ∧ (delta ≠ 0 → m ≤ start ∧ start.toNat + delta.toNat ≤ n.toNat)

/-- The segment of one claim: only the first stop past its gate may charge it, and the charge lies
between the two. -/
structure SegmentOk (m : UInt64) (seg : List RunEv) : Prop where
  once : ∀ x ∈ seg.tail, x.isCharge = false
  within : ∀ start delta n, .charged start delta n ∈ seg → Within m start delta n

/-- Every charge has a claim before it. -/
def Claimed (log : List RunEv) : Prop :=
  ∀ pre x post, log = pre ++ x :: post → x.isCharge = true → ∃ m, .claimed m ∈ pre

theorem segmentOk_nil (m : UInt64) : SegmentOk m [] := ⟨by simp, by simp⟩

theorem SegmentOk.stopped {m : UInt64} {seg : List RunEv} (h : SegmentOk m seg) (n : UInt64) :
    SegmentOk m (seg ++ [.stopped n]) := by
  refine ⟨?_, ?_⟩
  · intro x hx
    cases seg with
    | nil => simp at hx
    | cons y seg =>
      rcases List.mem_append.mp hx with hx | hx
      · exact h.once x hx
      · rw [List.mem_singleton.mp hx]
        rfl
  · intro start delta n' hm
    refine h.within start delta n' ?_
    simpa using hm

theorem segmentOk_charged {m start delta n : UInt64} (h : Within m start delta n) :
    SegmentOk m [.charged start delta n] := by
  refine ⟨by simp, ?_⟩
  intro start' delta' n' hm
  simp only [List.mem_singleton, RunEv.charged.injEq] at hm
  obtain ⟨rfl, rfl, rfl⟩ := hm
  exact h

theorem claimed_nil : Claimed [] := by
  intro pre x post h
  simp at h

theorem Claimed.snoc {log : List RunEv} {x : RunEv} (h : Claimed log)
    (hx : x.isCharge = true → ∃ m, .claimed m ∈ log) : Claimed (log ++ [x]) := by
  intro pre y post he hy
  rcases List.eq_nil_or_concat post with rfl | ⟨post', z, rfl⟩
  · obtain ⟨rfl, hxy⟩ := List.append_inj' he rfl
    obtain rfl : x = y := by simpa using hxy
    exact hx hy
  · have hsplit : log ++ [x] = (pre ++ y :: post') ++ [z] := by simpa using he
    obtain ⟨rfl, -⟩ := List.append_inj' hsplit rfl
    exact h pre y post' rfl hy

theorem claimed_mem_of_current {log : List RunEv} {m : UInt64} {seg : List RunEv}
    (h : Epoch.current RunEv.opens log = some (m, seg)) : .claimed m ∈ log := by
  obtain ⟨pre, x, rfl, hx, -⟩ := (Epoch.current_eq_some_iff RunEv.opens).mp h
  cases x with
  | claimed now =>
    obtain rfl : now = m := by simpa [RunEv.opens] using hx
    simp
  | _ => simp [RunEv.opens] at hx

/-- A segment from a claim at `m` to a later stop: its stamp is the clock of the claim, or the fold
of the maximum, which no later clock passes. -/
theorem within_stop {m n : UInt64} (hm : m ≠ 0) (hle : m ≤ n) :
    Within m (flowRunStamp m) (flowStopDelta n (flowRunStamp m)) n := by
  refine ⟨rfl, fun hd => ?_⟩
  have hle' := UInt64.le_iff_toNat_le.mp hle
  have hclamp : flowStopDelta n (flowRunStamp m) = n - flowRunStamp m
      ∧ flowTimeBefore n (flowRunStamp m) = false := by
    unfold flowStopDelta flowDeltaClamp at hd ⊢
    simp only at hd ⊢
    split_ifs at hd ⊢ <;> simp_all
  obtain ⟨hsub, hbefore⟩ := hclamp
  by_cases hmax : m = u64Max
  · have hstamp : flowRunStamp m = 1 := if_pos (Or.inr hmax)
    have hn : n = u64Max := by
      have hlt := n.toNat_lt
      rw [hmax, toNat_u64Max] at hle'
      refine UInt64.toNat_inj.mp ?_
      rw [toNat_u64Max]
      omega
    rw [hstamp, hn] at hbefore
    exact absurd hbefore (by decide)
  · have hstamp : flowRunStamp m = m := if_neg (not_or.mpr ⟨hm, hmax⟩)
    rw [hstamp] at hsub ⊢
    refine ⟨UInt64.le_refl m, ?_⟩
    rw [hsub, toNat_sub_of_le hle']
    omega

/-- The start of `p` is that of the current claim, or none. -/
def RunInv (p : TaskRef) (s : RunState) (log : List RunEv) : Prop :=
  runAtOf (s.world.taskCtx p) = 0
    ∨ ∃ m, Epoch.current RunEv.opens log = some (m, []) ∧ m ≠ 0 ∧ m ≤ s.clock
      ∧ runAtOf (s.world.taskCtx p) = flowRunStamp m

/-- The log of a run. -/
structure RunLogOk (log : List RunEv) : Prop where
  segment : Epoch.Forall RunEv.opens SegmentOk log
  claimed : Claimed log

theorem RunLogOk.open {log : List RunEv} (h : RunLogOk log) (now : UInt64) :
    RunLogOk (log ++ [.claimed now]) := by
  have hopen : RunEv.opens (.claimed now) = some now := rfl
  exact ⟨(Epoch.forall_snoc_of_opens hopen (segmentOk_nil now)).mpr h.segment,
    h.claimed.snoc (by simp [RunEv.isCharge])⟩

theorem RunLogOk.stop {log : List RunEv} (h : RunLogOk log) (now : UInt64) :
    RunLogOk (log ++ [.stopped now]) := by
  refine ⟨(Epoch.forall_snoc_of_not rfl).mpr ⟨h.segment, ?_⟩, h.claimed.snoc (by
    simp [RunEv.isCharge])⟩
  intro m seg hcur
  exact (h.segment.current hcur).stopped now

theorem RunLogOk.charge {log : List RunEv} (h : RunLogOk log) {m start delta now : UInt64}
    (hcur : Epoch.current RunEv.opens log = some (m, [])) (hw : Within m start delta now) :
    RunLogOk (log ++ [.charged start delta now]) :=
  ⟨(Epoch.forall_snoc_of_some hcur rfl).mpr ⟨h.segment, segmentOk_charged hw⟩,
    h.claimed.snoc fun _ => ⟨m, claimed_mem_of_current hcur⟩⟩

theorem runInv_step (p : TaskRef) {s : RunState} {c : Call} {log : List RunEv} (hc : RunCall s c)
    (hi : RunInv p s log ∧ RunLogOk log) :
    RunInv p ((runMachine p).step s c) (log ++ (runMachine p).out s c)
      ∧ RunLogOk (log ++ (runMachine p).out s c) := by
  obtain ⟨hop, hnow, hclock⟩ := hc
  obtain ⟨hinv, hlog⟩ := hi
  cases runStep (p := p) (w := s.world) hop with
  | quiet hr ho =>
    have hout : (runMachine p).out s c = [] := ho
    rw [hout, List.append_nil]
    refine ⟨?_, hlog⟩
    rcases hr with hr | hr
    · rcases hinv with h0 | ⟨m, hcur, hm, hle, hstart⟩
      · exact Or.inl (hr.trans h0)
      · exact Or.inr ⟨m, hcur, hm, UInt64.le_trans hle hclock, hr.trans hstart⟩
    · exact Or.inl hr
  | claim h0 hr ho =>
    have hout : (runMachine p).out s c = [.claimed c.view.now] := ho
    rw [hout]
    refine ⟨Or.inr ⟨c.view.now, ?_, hnow, UInt64.le_refl _, hr⟩, hlog.open _⟩
    exact Epoch.current_snoc_of_opens RunEv.opens rfl log
  | stop hr ho =>
    have hout : (runMachine p).out s c = [.stopped c.view.now] := ho
    rw [hout]
    exact ⟨Or.inl hr, hlog.stop _⟩
  | charge h0 hr ho =>
    have hout : (runMachine p).out s c = [.charged (runAtOf (s.world.taskCtx p))
        (flowStopDelta c.view.now (runAtOf (s.world.taskCtx p))) c.view.now,
        .stopped c.view.now] := ho
    rcases hinv with h0' | ⟨m, hcur, hm, hle, hstart⟩
    · exact absurd h0' h0
    · rw [hout, List.append_cons]
      refine ⟨Or.inl hr, (hlog.charge hcur ?_).stop _⟩
      rw [hstart]
      exact within_stop hm (UInt64.le_trans hle hclock)

/-- No start is claimed for `p` and no row names a task, as before the first op on either. -/
structure AtRest (p : TaskRef) (w : World) : Prop where
  start : runAtOf (w.taskCtx p) = 0
  rows : ∀ cpu pid, ¬ names w cpu pid

/-- What a stop of `p` past its gate leaves: no claimed start, no row of its CPU that names the task,
and any other row that does named by a running there that no stop there has followed. -/
structure StopLeaves (p : TaskRef) (w : World) (calls : List Call) (c : Call) : Prop where
  start : runAtOf ((system.exec w (calls ++ [c])).taskCtx p) = 0
  row : ∀ cpu, names (system.exec w (calls ++ [c])) cpu (c.view.task p).pid →
    (c.view.task p).taskCpu ≠ cpu ∧ OwnedSince w (calls ++ [c]) cpu (c.view.task p).pid

theorem stopped_mem_of_stopPasses {p : TaskRef} {w : World} {c : Call}
    (h : stopPasses p w c = true) : c.isRunOp = true ∧ .stopped c.view.now ∈ c.runEvents p w := by
  obtain ⟨k, op⟩ := c
  cases op with
  | stopping q runnable =>
    obtain ⟨rfl, -⟩ : q = p ∧ flowEntryOk w (k.task p) (k.task p).taskCpu 0 = true := by
      simpa [stopPasses] using h
    refine ⟨rfl, ?_⟩
    simp [Call.runEvents, Op.onTask, h]
  | _ => simp [stopPasses] at h

theorem start_of_stopPasses {p : TaskRef} {w : World} {c : Call} (h : stopPasses p w c = true) :
    runAtOf ((w.step c).taskCtx p) = 0 := by
  obtain ⟨hop, hm⟩ := stopped_mem_of_stopPasses h
  cases runStep (p := p) (w := w) hop with
  | quiet hr ho =>
    rw [ho] at hm
    simp at hm
  | claim h0 hr ho =>
    rw [ho] at hm
    simp at hm
  | stop hr ho => exact hr
  | charge h0 hr ho => exact hr

theorem ownedSince_of_names {p : TaskRef} {w : World} (h0 : AtRest p w) {calls : List Call}
    (hcalls : (runMachine p).Along RunCall ⟨w, 0⟩ calls) :
    ∀ cpu pid, names (system.exec w calls) cpu pid → OwnedSince w calls cpu pid := by
  refine (runMachine p).run_induction (s := ⟨w, 0⟩) (P := RunCall)
    (I := fun ls => ∀ cpu pid, names (system.exec w ls) cpu pid → OwnedSince w ls cpu pid)
    ?_ ?_ hcalls
  · intro cpu pid h
    exact absurd h (h0.rows cpu pid)
  · intro ls c hc ih cpu pid h
    exact OwnedSince.step hc.1 (ih cpu pid) h

/-- On every run of the six ops under a clock that never runs back, a stop past its gate leaves no
start and no row of its CPU that names the task; every charge takes the one start claimed last,
once, before any other stop past its gate, and lies between that claim and the charging stop. -/
theorem runClaim_protocol (p : TaskRef) (w : World) (h0 : AtRest p w) (calls : List Call)
    (hcalls : (runMachine p).Along RunCall ⟨w, 0⟩ calls) :
    (∀ pre c post, calls = pre ++ c :: post → stopPasses p (system.exec w pre) c = true →
        StopLeaves p w pre c)
      ∧ RunLogOk ((runMachine p).log ⟨w, 0⟩ calls) := by
  constructor
  · rintro pre c post rfl hpass
    have hpre : (runMachine p).Along RunCall ⟨w, 0⟩ (pre ++ [c]) := by
      rw [List.append_cons, Machine.along_append] at hcalls
      exact hcalls.1
    refine ⟨?_, fun cpu hn => ⟨fun hcpu => ?_, ownedSince_of_names h0 hpre cpu _ hn⟩⟩
    · rw [system.exec_snoc]
      exact start_of_stopPasses hpass
    · rw [system.exec_snoc] at hn
      exact not_names_of_stopsOwner ⟨p, hpass, rfl, hcpu⟩ hn
  · have hrun := (runMachine p).invariant
      (I := fun s log => RunInv p s log ∧ RunLogOk log) (P := RunCall)
      (fun s c log hc hi => runInv_step p hc hi) calls (h := []) hcalls
      ⟨Or.inl h0.start, Epoch.forall_nil, claimed_nil⟩
    simpa using hrun.2

/-- A boot state with the storage of every task at its creation. -/
def World.bootTasks : World :=
  { World.boot 2 1 (fun _ => 0) with taskCtx := fun _ => some FlowTaskCtx.zero }

/-- A task runs and stops with the mask of its stop open or closed, then runs and stops again. -/
def runsTwice (allowed : Bool) : List Call :=
  [⟨Kernel.masked 1000 true, .running 0⟩, ⟨Kernel.masked 2000 allowed, .stopping 0 true⟩,
    ⟨Kernel.masked 5000 true, .running 0⟩, ⟨Kernel.masked 6000 true, .stopping 0 true⟩]

theorem atRest_bootTasks (p : TaskRef) : AtRest p World.bootTasks :=
  ⟨rfl, fun _ _ h => h.1 h.2.symm⟩

/-- Both segments stop past their gate. -/
theorem runClaim_protocol_twice : AtRest 0 World.bootTasks
    ∧ (runMachine 0).Along RunCall ⟨World.bootTasks, 0⟩ (runsTwice true)
    ∧ StopLeaves 0 World.bootTasks [⟨Kernel.masked 1000 true, .running 0⟩]
      ⟨Kernel.masked 2000 true, .stopping 0 true⟩
    ∧ RunLogOk ((runMachine 0).log ⟨World.bootTasks, 0⟩ (runsTwice true)) := by
  have hrun : (runMachine 0).Along RunCall ⟨World.bootTasks, 0⟩ (runsTwice true) := by decide
  have h := runClaim_protocol 0 World.bootTasks (atRest_bootTasks 0) (runsTwice true) hrun
  exact ⟨atRest_bootTasks 0, hrun, h.1 [_] _ _ rfl (by decide), h.2⟩

/-- A task runs on CPU 0 and stops past its gate on CPU 1. -/
def stopsElsewhere : List Call :=
  [⟨Kernel.plain 1000, .running 0⟩,
    ⟨{ Kernel.plain 2000 with task := fun p => { TaskStruct.plain p with taskCpu := 1 } },
      .stopping 0 true⟩]

/-- A stop that its gate rejects leaves the start and the owner, and the next stop charges the time
the task did not run from 2000 to 5000; a stop on another CPU leaves the owner of the first. -/
theorem runClaim_survives_stop :
    ((runMachine 0).Along RunCall ⟨World.bootTasks, 0⟩ (runsTwice false)
      ∧ runAtOf ((system.exec World.bootTasks ((runsTwice false).take 2)).taskCtx 0) = 1000
      ∧ names (system.exec World.bootTasks ((runsTwice false).take 2)) 0 1
      ∧ (runMachine 0).log ⟨World.bootTasks, 0⟩ (runsTwice false)
        = [.claimed 1000, .charged 1000 5000 6000, .stopped 6000])
      ∧ (runMachine 0).Along RunCall ⟨World.bootTasks, 0⟩ stopsElsewhere
      ∧ (runMachine 0).log ⟨World.bootTasks, 0⟩ stopsElsewhere
        = [.claimed 1000, .charged 1000 1000 2000, .stopped 2000]
      ∧ names (system.exec World.bootTasks stopsElsewhere) 0 1 :=
  ⟨⟨by decide, by decide, ⟨by decide, by decide⟩, by decide⟩, by decide, by decide,
    ⟨by decide, by decide⟩⟩

end Invariant

end ScxFlow
