import ScxFlow.System
import ScxFlow.Proofs.Effects
import ScxFlow.Proofs.Segment
import ScxFlow.Proofs.Words

/-!
# The minimum of a CPU over its charges

A charge folds the row forward to the ledger it leaves, so the row follows the greatest ledger
charged, not the smallest.  Over a run of charges on one CPU it stays a lower bound of the ledgers
charged there exactly when every charge lands between the row and the other tasks' ledgers, which a
task charged again behind another never does.
-/

namespace ScxFlow

section OneCpu

/-- The state, and the tasks charged so far. -/
structure MinState where
  world : World
  charged : List TaskRef

/-- The ledger of a task with storage. -/
def ledger (w : World) (q : TaskRef) : Option UInt64 := (w.taskCtx q).map FlowTaskCtx.vruntime

/-- The task a call charges, with the ledger the charge leaves it. -/
def chargeOf (w : World) (c : Call) : Option (TaskRef × UInt64) :=
  match c.op with
  | .stopping p _ =>
    match stopTakes w c.view p with
    | none => none
    | some t =>
      let delta := flowStopDelta c.view.now t.runAt
      if delta ≠ 0 then some (p, (flowStopCharge t delta).vruntime) else none
  | _ => none

/-- The ops of one task between its charges, with its tasks on `cpu`. -/
def Call.chargesOn (cpu : ℕ) (c : Call) : Bool :=
  match c.op with
  | .running p => decide ((c.view.task p).taskCpu = cpu)
  | .stopping p _ => decide ((c.view.task p).taskCpu = cpu)
  | .setWeight _ _ => true
  | _ => false

/-- The run of charges, which logs each task with its new ledger. -/
def minMachine : Machine MinState Call (TaskRef × UInt64) where
  step s c := ⟨s.world.step c, match chargeOf s.world c with
    | none => s.charged
    | some (p, _) => p :: s.charged⟩
  out s c := (chargeOf s.world c).toList

variable (cpu : ℕ)

/-- Every ledger and the row lie below half the half range. -/
structure MinBounds (s : MinState) : Prop where
  ledger : ∀ q v, ledger s.world q = some v → v.toNat < 2 ^ 62
  row : (s.world.cpuState cpu).minVruntime.toNat < 2 ^ 62

/-- A call of the run, whose charge stays below the bound. -/
def MinCall (s : MinState) (c : Call) : Prop :=
  c.chargesOn cpu = true ∧ ∀ p a, chargeOf s.world c = some (p, a) → a.toNat < 2 ^ 62

instance (s : MinState) (c : Call) : Decidable (MinCall cpu s c) :=
  decidable_of_iff (c.chargesOn cpu = true
      ∧ ∀ x ∈ (chargeOf s.world c).toList, x.2.toNat < 2 ^ 62)
    (and_congr_right fun _ => by simp [Option.mem_toList, Prod.forall])

/-- The lag `flow_eligible` allows. -/
def lagAllowed (vlag : Int32) : UInt64 :=
  let lag := flowLagClamp vlag
  (if lag < 0 then 0 else lag).toInt64.toUInt64

/-- The row is a minimum: no ledger charged on the CPU is below it, and a task that leads one of them
by more than its lag is not eligible there. -/
structure MinSound (s : MinState) : Prop where
  least : ∀ q ∈ s.charged, ∀ u, ledger s.world q = some u →
    (s.world.cpuState cpu).minVruntime ≤ u
  gate : ∀ q ∈ s.charged, ∀ u, ledger s.world q = some u → ∀ v vlag, v.toNat < 2 ^ 62 →
    u.toNat + (lagAllowed vlag).toNat < v.toNat →
    flowEligible v (s.world.cpuState cpu).minVruntime vlag = false

/-- A charge lands at or past the row, and at or before every other ledger charged there. -/
def ChargeBetween (s : MinState) (c : Call) : Prop :=
  ∀ p a, chargeOf s.world c = some (p, a) → (s.world.cpuState cpu).minVruntime ≤ a
    ∧ ∀ q ∈ s.charged, q ≠ p → ∀ u, ledger s.world q = some u → a ≤ u

instance (s : MinState) (c : Call) : Decidable (ChargeBetween cpu s c) :=
  decidable_of_iff (∀ x ∈ (chargeOf s.world c).toList,
      (s.world.cpuState cpu).minVruntime ≤ x.2
        ∧ ∀ q ∈ s.charged, q ≠ x.1 → (ledger s.world q).all (fun u => decide (x.2 ≤ u)) = true)
    (by simp only [Option.mem_toList, Prod.forall, ChargeBetween, Option.all_eq_true,
      decide_eq_true_eq])

theorem flowEligible_eq (v min : UInt64) (vlag : Int32) : flowEligible v min vlag
    = let limit := flowSatAdd min (lagAllowed vlag)
      if limit = u64Max then true else if v = limit then true else flowTimeBefore v limit := rfl

/-- Past the row and the lag a ledger is not eligible. -/
theorem not_flowEligible {v min : UInt64} {vlag : Int32} (hv : v.toNat < 2 ^ 62)
    (h : min.toNat + (lagAllowed vlag).toNat < v.toNat) : flowEligible v min vlag = false := by
  have hlimit := flowSatAdd_toNat_of_lt (a := min) (b := lagAllowed vlag) (by omega)
  rw [flowEligible_eq]
  simp only
  generalize flowSatAdd min (lagAllowed vlag) = limit at hlimit
  rw [if_neg, if_neg, not_flowTimeBefore_of_le (by omega) (by omega)]
  · rintro rfl
    omega
  · exact ne_u64Max (by omega)

theorem minSound_iff {s : MinState} : MinSound cpu s ↔ ∀ q ∈ s.charged, ∀ u,
    ledger s.world q = some u → (s.world.cpuState cpu).minVruntime ≤ u := by
  refine ⟨MinSound.least, fun h => ⟨h, fun q hq u hu v vlag hv hlead => ?_⟩⟩
  have hle := UInt64.le_iff_toNat_le.mp (h q hq u hu)
  exact not_flowEligible hv (by omega)

end OneCpu

section Row

variable {cpu : ℕ} {w : World} {k : Kernel} {p : TaskRef}

/-- A fold of a row. -/
def Effect.isFold : Effect → Bool
  | .minAdvance _ _ => true
  | _ => false

theorem perform_row {e : Effect} (h : e.isFold = false) (c : ℕ) :
    ((w.perform k p e).cpuState c).minVruntime = (w.cpuState c).minVruntime := by
  have hset : ∀ (d : ℕ) (pid : UInt32),
      ((w.setCpu d { w.cpuState d with runningPid := pid }).cpuState c).minVruntime
        = (w.cpuState c).minVruntime := by
    intro d pid
    by_cases hc : c = d
    · subst hc
      simp [World.setCpu]
    · simp [World.setCpu, hc]
  cases e
  case setRunning d pid => exact hset d pid
  case clearRunningIfOwner d pid =>
    rw [World.perform]
    unfold flowClearRunningIfOwner
    split_ifs
    · rfl
    · rfl
    · rfl
    · exact hset _ 0
    · rfl
  case clearRunning d =>
    rw [World.perform]
    unfold flowClearRunning
    split_ifs
    · rfl
    · rfl
    · exact hset _ 0
  case minAdvance => simp [Effect.isFold] at h
  all_goals rw [perform_cpuState w k p rfl]

theorem run_row {es : List Effect} (h : ∀ e ∈ es, e.isFold = false) (c : ℕ) :
    ((w.run k p es).cpuState c).minVruntime = (w.cpuState c).minVruntime :=
  List.foldl_observe (fun w : World => (w.cpuState c).minVruntime) w
    fun w e he => perform_row (w := w) (h e he) c

theorem flowMinAdvance_row (hl : flowCpuLive w cpu = true) {v : UInt64} (hv : v ≠ 0) :
    ((flowMinAdvance w cpu v).cpuState cpu).minVruntime
      = if flowTimeBefore (w.cpuState cpu).minVruntime v then v
        else (w.cpuState cpu).minVruntime := by
  unfold flowMinAdvance
  rw [if_neg (by omega), if_neg hv]
  simp only [Int.toNat_natCast, hl, Bool.not_true, Bool.false_eq_true, ↓reduceIte]
  by_cases heq : (w.cpuState cpu).minVruntime = v
  · rw [if_pos heq, heq]
    split
    · rfl
    · rfl
  · rw [if_neg heq]
    cases flowTimeBefore (w.cpuState cpu).minVruntime v
    · rfl
    · simp [World.setCpu]

theorem perform_fold (hl : flowCpuLive w cpu = true) {v : UInt64} (hv : v ≠ 0) :
    ((w.perform k p (.minAdvance cpu v)).cpuState cpu).minVruntime
      = if flowTimeBefore (w.cpuState cpu).minVruntime v then v
        else (w.cpuState cpu).minVruntime :=
  flowMinAdvance_row hl hv

theorem flowScaledDelta_ne_zero {delta : UInt64} (h : delta ≠ 0) (weight : UInt32) :
    flowScaledDelta delta weight ≠ 0 := by
  unfold flowScaledDelta
  simp only
  rw [if_neg h]
  split_ifs with h₁ h₂
  · decide
  · decide
  · exact h₂

theorem flowStopCharge_ne_zero {t : FlowTaskCtx} {delta : UInt64} (h : delta ≠ 0) :
    (flowStopCharge t delta).vruntime ≠ 0 := by
  show flowSatAdd t.vruntime (flowScaledDelta delta _) ≠ 0
  generalize flowTaskEffectiveWeight _ _ = weight
  have hpos := flowScaledDelta_ne_zero h weight
  have hsum := flowSatAdd_toNat t.vruntime (flowScaledDelta delta weight)
  generalize flowScaledDelta delta weight = x at hpos hsum
  intro hz
  rw [hz, UInt64.toNat_zero] at hsum
  have hpos' := toNat_pos_iff.mpr hpos
  omega

theorem ownerEffect_isFold (w : World) (ts : TaskStruct) :
    ∀ e ∈ ownerEffect w ts, e.isFold = false := by
  intro e he
  obtain ⟨d, rfl⟩ := exists_of_mem_ownerEffect he
  rfl

theorem StopEff.split {ts : TaskStruct} {c : FlowTaskCtx} {now delta : UInt64} {runnable : Bool}
    {es : List Effect} (h : StopEff ts c now delta runnable es) :
    ∃ rest, es = chargeEffects ts c delta ++ rest ∧ ∀ e ∈ rest, e.isFold = false := by
  cases h with
  | requeue => exact ⟨_, rfl, by simp [Effect.isFold]⟩
  | complete hcredit =>
    refine ⟨_, by simp only [List.append_assoc]; rfl, ?_⟩
    intro e he
    simp only [List.mem_append, List.mem_singleton] at he
    rcases he with he | rfl | he | rfl
    · rcases hcredit with rfl | ⟨d, rfl⟩
      · simp at he
      · rw [List.mem_singleton.mp he]
        rfl
    · rfl
    · split at he
      · rw [List.mem_singleton.mp he]
        rfl
      · simp at he
    · rfl

theorem ledger_commit (w : World) (k : Kernel) (p : TaskRef) (o : OpOut) :
    ledger (w.commit k p o)
      = Function.update (ledger w) p (o.ctx.map FlowTaskCtx.vruntime) := by
  funext q
  unfold ledger
  rw [commit_taskCtx]
  by_cases hq : q = p
  · subst hq
    simp
  · simp [hq]

theorem commit_quiet {o : OpOut} (hv : o.ctx.map FlowTaskCtx.vruntime = ledger w p)
    (he : ∀ e ∈ o.eff, e.isFold = false) :
    ledger (w.commit k p o) = ledger w ∧ ∀ r,
      ((w.commit k p o).cpuState r).minVruntime = (w.cpuState r).minVruntime := by
  refine ⟨?_, fun r => run_row he r⟩
  rw [ledger_commit, hv, Function.update_eq_self]

theorem flowRunning_quiet (w : World) (k : Kernel) (p : TaskRef) :
    (flowRunning w k p).ctx.map FlowTaskCtx.vruntime = ledger w p
      ∧ ∀ e ∈ (flowRunning w k p).eff, e.isFold = false := by
  rcases hg : flowEntryOk w (k.task p) (k.task p).taskCpu 0 with _ | _
  · rw [flowRunning_of_closed hg]
    exact ⟨rfl, by simp [Effect.isFold]⟩
  · rcases flowRunning_of_open hg with ⟨t, ht, -, heq⟩ | ⟨-, heq⟩
    · rw [heq]
      refine ⟨by simp [ledger, ht], fun e he => ?_⟩
      rcases List.mem_cons.mp he with rfl | he
      · rfl
      · exact ownerEffect_isFold w (k.task p) e he
    · rw [heq]
      exact ⟨rfl, ownerEffect_isFold w (k.task p)⟩

theorem flowStopping_quiet {runnable : Bool} (h : chargeOf w ⟨k, .stopping p runnable⟩ = none) :
    (flowStopping w k p runnable).ctx.map FlowTaskCtx.vruntime = ledger w p
      ∧ ∀ e ∈ (flowStopping w k p runnable).eff, e.isFold = false := by
  rcases flowStopping_cases w k p runnable with ⟨-, -, heq⟩ | ⟨-, -, -, heq⟩ |
    ⟨t, t', es, -, htakes, ht, -, heq, hctx, heff⟩
  · rw [heq]
    exact ⟨rfl, by simp [Effect.isFold]⟩
  · rw [heq]
    exact ⟨rfl, by simp [Effect.isFold]⟩
  · have h0 : flowStopDelta k.now t.runAt = 0 := by
      by_contra hne
      simp [chargeOf, htakes, hne] at h
    obtain ⟨rest, hes, hrest⟩ := heff.split
    have hv := hctx.vruntime
    rw [h0] at hv hes
    rw [heq]
    refine ⟨by simp [ledger, ht, hv], fun e he => ?_⟩
    rcases List.mem_cons.mp he with rfl | he
    · rfl
    · rw [hes] at he
      exact hrest e (by simpa [chargeEffects] using he)

theorem flowStopping_charges {runnable : Bool} {a : UInt64} {q : TaskRef}
    (hcpu : (k.task p).taskCpu = cpu)
    (h : chargeOf w ⟨k, .stopping p runnable⟩ = some (q, a)) :
    q = p ∧ a ≠ 0
      ∧ ledger (w.commit k p (flowStopping w k p runnable)) = Function.update (ledger w) p (some a)
      ∧ ((w.commit k p (flowStopping w k p runnable)).cpuState cpu).minVruntime
        = if flowTimeBefore (w.cpuState cpu).minVruntime a then a
          else (w.cpuState cpu).minVruntime := by
  rcases flowStopping_cases w k p runnable with ⟨-, htakes, -⟩ | ⟨-, htakes, -, -⟩ |
    ⟨t, t', es, hgate, htakes, ht, -, heq, hctx, heff⟩
  · simp [chargeOf, htakes] at h
  · simp [chargeOf, htakes] at h
  · simp only [chargeOf, htakes] at h
    split at h
    · rename_i hne
      obtain ⟨rfl, rfl⟩ : p = q ∧ (flowStopCharge t (flowStopDelta k.now t.runAt)).vruntime = a := by
        simpa using h
      have hpos := flowStopCharge_ne_zero (t := t) hne
      obtain ⟨rest, hes, hrest⟩ := heff.split
      have hv := hctx.vruntime
      rw [if_pos hne] at hv
      have hlive := flowCpuLive_of_entryOk hcpu hgate
      refine ⟨rfl, hpos, ?_, ?_⟩
      · rw [ledger_commit, heq, Option.map_some, hv]
        rfl
      · have hcharged : (flowStopCharged { t with runAt := 0 }
            (flowStopDelta k.now t.runAt)).vruntime
            = (flowStopCharge t (flowStopDelta k.now t.runAt)).vruntime := by
          unfold flowStopCharged
          rw [if_pos hne]
          rfl
        rw [chargeEffects, if_pos hne, hcpu, hcharged] at hes
        rw [World.commit, heq, hes]
        simp only [List.cons_append, List.nil_append, run_cons]
        rw [run_row hrest, perform_fold (by rw [perform_live, perform_live]; exact hlive) hpos,
          perform_row rfl, perform_row rfl]
    · simp at h

end Row

section OneCall

variable (cpu : ℕ)

theorem minStep_quiet {s : MinState} {c : Call} (hc : c.chargesOn cpu = true)
    (h : chargeOf s.world c = none) : ledger (s.world.step c) = ledger s.world
      ∧ ((s.world.step c).cpuState cpu).minVruntime = (s.world.cpuState cpu).minVruntime := by
  obtain ⟨k, op⟩ := c
  cases op with
  | running p =>
    obtain ⟨hv, he⟩ := flowRunning_quiet s.world k p
    obtain ⟨hl, hr⟩ := commit_quiet (k := k) hv he
    exact ⟨hl, hr cpu⟩
  | stopping p runnable =>
    obtain ⟨hv, he⟩ := flowStopping_quiet h
    obtain ⟨hl, hr⟩ := commit_quiet (k := k) hv he
    exact ⟨hl, hr cpu⟩
  | setWeight p weight =>
    show ledger (flowSetWeight s.world p weight) = _
      ∧ ((flowSetWeight s.world p weight).cpuState cpu).minVruntime = _
    refine ⟨?_, by rw [flowSetWeight_eq]⟩
    funext q
    unfold ledger
    rw [flowSetWeight_taskCtx]
    by_cases hq : q = p
    · subst hq
      rw [Function.update_self, Option.map_map]
      rfl
    · simp [hq]
  | _ => simp [Call.chargesOn] at hc

/-- A call that charges moves one ledger, and the row to the later of itself and that ledger. -/
theorem minStep_charge {s : MinState} {c : Call} {p : TaskRef} {a : UInt64}
    (hc : c.chargesOn cpu = true) (h : chargeOf s.world c = some (p, a)) :
    ledger (s.world.step c) = Function.update (ledger s.world) p (some a)
      ∧ ((s.world.step c).cpuState cpu).minVruntime
        = if flowTimeBefore (s.world.cpuState cpu).minVruntime a then a
          else (s.world.cpuState cpu).minVruntime := by
  obtain ⟨k, op⟩ := c
  cases op with
  | stopping q runnable =>
    have hcpu : (k.task q).taskCpu = cpu := by simpa [Call.chargesOn] using hc
    obtain ⟨rfl, -, hl, hr⟩ := flowStopping_charges hcpu h
    exact ⟨hl, hr⟩
  | _ => simp [chargeOf] at h

theorem fold_toNat {row a : UInt64} (hr : row.toNat < 2 ^ 62) (ha : a.toNat < 2 ^ 62) :
    (if flowTimeBefore row a then a else row).toNat = max row.toNat a.toNat := by
  by_cases hlt : row.toNat < a.toNat
  · rw [if_pos (flowTimeBefore_of_lt hlt (by omega))]
    omega
  · rw [not_flowTimeBefore_of_le (by omega) (by omega), if_neg (by simp)]
    omega

theorem minBounds_step {s : MinState} {c : Call} (hc : MinCall cpu s c) (h : MinBounds cpu s) :
    MinBounds cpu (minMachine.step s c) := by
  obtain ⟨hon, hbound⟩ := hc
  rcases hch : chargeOf s.world c with _ | ⟨p, a⟩
  · obtain ⟨hl, hr⟩ := minStep_quiet cpu hon hch
    refine ⟨?_, ?_⟩
    · show ∀ q v, ledger (s.world.step c) q = some v → _
      rw [hl]
      exact h.ledger
    · show ((s.world.step c).cpuState cpu).minVruntime.toNat < _
      rw [hr]
      exact h.row
  · have ha := hbound p a hch
    obtain ⟨hl, hr⟩ := minStep_charge cpu hon hch
    have hfold := fold_toNat h.row ha
    have hrow := h.row
    refine ⟨?_, ?_⟩
    · show ∀ q v, ledger (s.world.step c) q = some v → _
      rw [hl]
      intro q v hv
      by_cases hq : q = p
      · subst hq
        rw [Function.update_self] at hv
        rw [← Option.some.inj hv]
        exact ha
      · rw [Function.update_of_ne hq] at hv
        exact h.ledger q v hv
    · show ((s.world.step c).cpuState cpu).minVruntime.toNat < _
      rw [hr, hfold]
      omega

/-- A call keeps the minimum sound exactly when its charge lands between. -/
theorem minSound_step_iff {s : MinState} {c : Call} (hc : MinCall cpu s c) (hb : MinBounds cpu s)
    (hs : MinSound cpu s) : MinSound cpu (minMachine.step s c) ↔ ChargeBetween cpu s c := by
  obtain ⟨hon, hbound⟩ := hc
  rw [minSound_iff]
  rcases hch : chargeOf s.world c with _ | ⟨p, a⟩
  · obtain ⟨hl, hr⟩ := minStep_quiet cpu hon hch
    refine iff_of_true ?_ (by simp [ChargeBetween, hch])
    simp only [minMachine, hch]
    rw [hl, hr]
    exact hs.least
  · have ha := hbound p a hch
    obtain ⟨hl, hr⟩ := minStep_charge cpu hon hch
    have hfold := fold_toNat hb.row ha
    rw [← hr] at hfold
    simp only [minMachine, hch]
    rw [hl]
    generalize ((s.world.step c).cpuState cpu).minVruntime = row' at hfold
    unfold ChargeBetween
    simp only [UInt64.le_iff_toNat_le]
    constructor
    · intro h p' a' he
      obtain ⟨rfl, rfl⟩ : p = p' ∧ a = a' := by simpa [hch] using he
      have hp := h p List.mem_cons_self a (Function.update_self ..)
      refine ⟨by omega, fun q hq hne u hu => ?_⟩
      have hqu := h q (List.mem_cons_of_mem p hq) u (by rwa [Function.update_of_ne hne])
      omega
    · intro h q hq u hu
      obtain ⟨hrow, hothers⟩ := h p a hch
      by_cases hqp : q = p
      · subst hqp
        rw [Function.update_self] at hu
        rw [← Option.some.inj hu]
        omega
      · rw [Function.update_of_ne hqp] at hu
        rcases List.mem_cons.mp hq with hq | hq
        · exact absurd hq hqp
        · have := hothers q hq hqp u hu
          omega

end OneCall

section ChargedAgain

variable (cpu : ℕ)

/-- Every task charged on the CPU has a ledger, and none is past the row. -/
def MinTops (s : MinState) : Prop :=
  ∀ q ∈ s.charged, ∃ u, ledger s.world q = some u ∧ u ≤ (s.world.cpuState cpu).minVruntime

theorem minTops_step {s : MinState} {c : Call} (hc : MinCall cpu s c) (hb : MinBounds cpu s)
    (h : MinTops cpu s) : MinTops cpu (minMachine.step s c) := by
  obtain ⟨hon, hbound⟩ := hc
  unfold MinTops minMachine
  rcases hch : chargeOf s.world c with _ | ⟨p, a⟩
  · obtain ⟨hl, hr⟩ := minStep_quiet cpu hon hch
    simp only [hch]
    rw [hl, hr]
    exact h
  · obtain ⟨hl, hr⟩ := minStep_charge cpu hon hch
    have hfold := fold_toNat hb.row (hbound p a hch)
    rw [← hr] at hfold
    simp only [hch, UInt64.le_iff_toNat_le]
    rw [hl]
    intro q hq
    by_cases hqp : q = p
    · exact ⟨a, by rw [hqp, Function.update_self], by omega⟩
    · rcases List.mem_cons.mp hq with hq | hq
      · exact absurd hq hqp
      · obtain ⟨u, hu, hle⟩ := h q hq
        rw [UInt64.le_iff_toNat_le] at hle
        exact ⟨u, by rw [Function.update_of_ne hqp, hu], by omega⟩

/-- A charge that stays below the bound moves its ledger up. -/
theorem ledger_lt_charge {w : World} {c : Call} {p : TaskRef} {a : UInt64}
    (h : chargeOf w c = some (p, a)) (ha : a.toNat < 2 ^ 62) :
    ∃ v, ledger w p = some v ∧ v < a := by
  obtain ⟨k, op⟩ := c
  cases op with
  | stopping q runnable =>
    rcases flowStopping_cases w k q runnable with ⟨-, htakes, -⟩ | ⟨-, htakes, -, -⟩ |
      ⟨t, -, -, -, htakes, ht, -⟩
    · simp [chargeOf, htakes] at h
    · simp [chargeOf, htakes] at h
    · simp only [chargeOf, htakes] at h
      split at h
      · rename_i hne
        obtain ⟨rfl, rfl⟩ : q = p
            ∧ (flowStopCharge t (flowStopDelta k.now t.runAt)).vruntime = a := by
          simpa using h
        refine ⟨t.vruntime, by rw [ledger, ht, Option.map_some], ?_⟩
        change (flowSatAdd t.vruntime (flowScaledDelta _ _)).toNat < _ at ha
        show t.vruntime < flowSatAdd t.vruntime (flowScaledDelta _ _)
        generalize flowTaskEffectiveWeight _ _ = weight at ha ⊢
        have hpos := toNat_pos_iff.mpr (flowScaledDelta_ne_zero hne weight)
        rw [UInt64.lt_iff_toNat_lt]
        rw [flowSatAdd_toNat] at ha ⊢
        omega
      · simp at h
  | _ => simp [chargeOf] at h

/-- Where every charge of a run landed between, a task charged again behind a charge of another does
not: both ledgers are at the row, and the new charge passes the other one. -/
theorem not_chargeBetween_again (w : World) (hb : MinBounds cpu ⟨w, []⟩) {calls : List Call}
    (hcalls : minMachine.Along (fun s c => MinCall cpu s c ∧ ChargeBetween cpu s c) ⟨w, []⟩ calls)
    {c : Call} (hc : MinCall cpu (minMachine.exec ⟨w, []⟩ calls) c) {p q : TaskRef} {a : UInt64}
    (hch : chargeOf (minMachine.exec ⟨w, []⟩ calls).world c = some (p, a))
    (hp : p ∈ (minMachine.exec ⟨w, []⟩ calls).charged)
    (hq : q ∈ (minMachine.exec ⟨w, []⟩ calls).charged) (hqp : q ≠ p) :
    ¬ChargeBetween cpu (minMachine.exec ⟨w, []⟩ calls) c := by
  have hinv := minMachine.invariant
    (I := fun s _ => MinBounds cpu s ∧ MinTops cpu s ∧ MinSound cpu s)
    (fun s c _ hc hi => ⟨minBounds_step cpu hc.1 hi.1, minTops_step cpu hc.1 hi.1 hi.2.1,
      (minSound_step_iff cpu hc.1 hi.1 hi.2.2).mpr hc.2⟩)
    calls hcalls (h := []) ⟨hb, by simp [MinTops], (minSound_iff cpu).mpr (by simp)⟩
  generalize minMachine.exec ⟨w, []⟩ calls = s at *
  obtain ⟨-, htops, hsound⟩ := hinv
  intro hbetween
  obtain ⟨v, hv, hlt⟩ := ledger_lt_charge hch (hc.2 p a hch)
  obtain ⟨u, hu, htop⟩ := htops q hq
  have hrow := hsound.least p hp v hv
  have hother := (hbetween p a hch).2 q hq hqp u hu
  rw [UInt64.le_iff_toNat_le] at htop hrow hother
  rw [UInt64.lt_iff_toNat_lt] at hlt
  omega

end ChargedAgain

section Runs

variable (cpu : ℕ)

/-- Over every run of charges on one CPU with bounded ledgers, the row is a minimum of what was
charged there in every state reached, exactly when each charge lands between the row and the other
ledgers charged there. -/
theorem minVruntime_sound_iff (w : World) (hb : MinBounds cpu ⟨w, []⟩) (calls : List Call)
    (hcalls : minMachine.Along (MinCall cpu) ⟨w, []⟩ calls) :
    (∀ pre post, calls = pre ++ post → MinSound cpu (minMachine.exec ⟨w, []⟩ pre))
      ↔ minMachine.Along (ChargeBetween cpu) ⟨w, []⟩ calls :=
  minMachine.always_iff_along (fun _ _ => minBounds_step cpu)
    (fun _ _ => minSound_step_iff cpu) calls hcalls hb ((minSound_iff cpu).mpr (by simp))

/-- Two fresh tasks run and stop on CPU 0, the first for `a` ns and the second for `b`. -/
def twoCharges (a b : UInt64) : List Call :=
  [⟨Kernel.plain 1000, .running 0⟩, ⟨Kernel.plain (1000 + a), .stopping 0 true⟩,
    ⟨Kernel.plain 5000, .running 1⟩, ⟨Kernel.plain (5000 + b), .stopping 1 true⟩]

/-- Tasks 0 and 1, enabled. -/
def World.twoTasks : World :=
  { World.boot 2 1 fun _ => 0 with
    taskCtx := fun p => if p < 2 then some FlowTaskCtx.fresh else none }

theorem twoTasks_bounds : MinBounds 0 ⟨World.twoTasks, []⟩ := by
  refine ⟨fun q v h => ?_, by decide⟩
  unfold ledger World.twoTasks at h
  simp only at h
  split at h
  · rw [← Option.some.inj h]
    decide
  · simp at h

/-- The second task, charged more, lifts the row past the first. -/
theorem minVruntime_passes_least : MinBounds 0 ⟨World.twoTasks, []⟩
    ∧ minMachine.Along (MinCall 0) ⟨World.twoTasks, []⟩ (twoCharges 100 1000)
    ∧ ¬ MinSound 0 (minMachine.exec ⟨World.twoTasks, []⟩ (twoCharges 100 1000)) := by
  refine ⟨twoTasks_bounds, by decide, fun h => ?_⟩
  have hle := h.least 0 (by decide) 100 (by decide)
  exact absurd hle (by decide)

/-- Two equal charges leave the row at both ledgers. -/
theorem minVruntime_sound_iff_two : MinBounds 0 ⟨World.twoTasks, []⟩
    ∧ minMachine.Along (MinCall 0) ⟨World.twoTasks, []⟩ (twoCharges 100 100)
    ∧ minMachine.log ⟨World.twoTasks, []⟩ (twoCharges 100 100) = [(0, 100), (1, 100)]
    ∧ ∀ pre post, twoCharges 100 100 = pre ++ post →
      MinSound 0 (minMachine.exec ⟨World.twoTasks, []⟩ pre) :=
  ⟨twoTasks_bounds, by decide, by decide,
    (minVruntime_sound_iff 0 World.twoTasks twoTasks_bounds (twoCharges 100 100)
      (by decide)).mpr (by decide)⟩

end Runs

end ScxFlow
