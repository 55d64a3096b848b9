import ScxFlow.Proofs.Credit
import ScxFlow.Proofs.RedExact
import ScxFlow.Proofs.Runtime

/-!
# What a reclaim under load costs

The reject queue stands behind the tiers: while they hold work, a reject moves only on credit, and
credit comes only from completions.  So over a run the reclaims of loaded passes are paid, at the
fixed price each, by what the completions before them saved (`run_overload`).
-/

namespace ScxFlow

variable {w : World} {k : Kernel} {p : TaskRef}

section Deadlines

/-- No stored deadline is far past the clock. -/
def DeadlinesNear (s : RunState) : Prop :=
  ∀ p t, s.world.taskCtx p = some t → t.deadline.toNat ≤ s.clock.toNat + 2 ^ 42

/-- The clock does not run back, and is in the lower half of its range. -/
def TicksLow (s : RunState) (t : Turn) : Prop :=
  Ticks s t ∧ (t.clock s.clock).toNat < 2 ^ 63

instance (s : RunState) (t : Turn) : Decidable (TicksLow s t) :=
  inferInstanceAs (Decidable (_ ∧ _))

theorem flowEnqueue_deadline (w : World) (k : Kernel) (p : TaskRef) (enqFlags : UInt64) {n : ℕ}
    (hn : k.now.toNat + 2 ^ 42 ≤ n) (h : ∀ t, w.taskCtx p = some t → t.deadline.toNat ≤ n) :
    ∀ t, (flowEnqueue w k p enqFlags).ctx = some t → t.deadline.toNat ≤ n := by
  have hget {t : FlowTaskCtx} (hg : flowGet w k p = some t) : t.deadline.toNat ≤ n := by
    rcases flowGet_some hg with hs | ⟨-, rfl⟩
    · exact h t hs
    · exact Nat.zero_le n
  have hleaves := flowEnqueue_leaves w k p enqFlags
  generalize (flowEnqueue w k p enqFlags).ctx = ctx at hleaves
  intro t' ht'
  cases hleaves with
  | same => exact h t' ht'
  | stamped ht =>
    obtain rfl := Option.some.inj ht'
    have hstored := h _ ht
    exact hstored
  | homeless hg =>
    obtain rfl := Option.some.inj ht'
    have hstored := hget hg
    exact hstored
  | waits hg hstores =>
    obtain rfl := Option.some.inj ht'
    rw [hstores.deadline]
    exact (flowPredDeadline_le _ _ _ _).trans hn

theorem DeadlinesNear.step {s : RunState} {t : Turn} (ht : Ticks s t) (h : DeadlinesNear s) :
    DeadlinesNear (timed.step s t) := by
  have hle : s.clock.toNat ≤ (t.clock s.clock).toNat := UInt64.le_iff_toNat_le.mp ht
  intro q
  have hq : ∀ t', s.world.taskCtx q = some t' →
      t'.deadline.toNat ≤ (t.clock s.clock).toNat + 2 ^ 42 := fun t' ht' =>
    (h q t' ht').trans (by omega)
  show ∀ t', (core.step s.world t).taskCtx q = some t' →
    t'.deadline.toNat ≤ (t.clock s.clock).toNat + 2 ^ 42
  cases t with
  | call c =>
    obtain ⟨k, op⟩ := c
    refine step_storage (P := fun c => ∀ t', c = some t' → t'.deadline.toNat ≤ k.now.toNat + 2 ^ 42)
      ⟨k, op⟩ hq (fun enqFlags _ => flowEnqueue_deadline _ _ _ _ le_rfl hq) (fun _ => ?_)
      (fun runnable _ => ?_) (fun _ => ?_) fun weight _ => ?_
    · rcases hgate : flowEntryOk s.world (k.task q) (k.task q).taskCpu 0 with _ | _
      · rw [flowRunning_of_closed hgate]
        exact hq
      · rcases flowRunning_of_open hgate with ⟨t, ht, -, heq⟩ | ⟨-, heq⟩
        · rw [heq]
          intro t' ht'
          obtain rfl := Option.some.inj ht'
          exact hq t ht
        · rw [heq]
          exact hq
    · rcases flowStopping_cases s.world k q runnable with ⟨-, -, heq⟩ | ⟨-, -, -, heq⟩ |
        ⟨t, t', es, -, -, ht, -, heq, hstop, -⟩
      · rw [heq]
        exact hq
      · rw [heq]
        exact hq
      · rw [heq]
        intro t'' ht''
        obtain rfl := Option.some.inj ht''
        rw [hstop.deadline]
        exact hq t ht
    · rcases flowEnable_ctx s.world k q with heq | heq
      · rw [heq]
        exact hq
      · rw [heq]
        intro t' ht'
        obtain rfl := Option.some.inj ht'
        exact Nat.zero_le _
    · rw [flowSetWeight_taskCtx, Function.update_self]
      intro t' ht'
      obtain ⟨t, ht, rfl⟩ := Option.map_eq_some_iff.mp ht'
      exact hq t ht
  | select k cap r prevCpu =>
    rw [show (core.step s.world (.select k cap r prevCpu)).taskCtx = s.world.taskCtx from
      select_taskCtx s.world k _]
    exact hq
  | seed rows =>
    rw [show (core.step s.world (.seed rows)).taskCtx = s.world.taskCtx from
      seedTopoWith_taskCtx s.world rows]
    exact hq
  | pick cpu => exact hq
  | dequeue r dsq => exact hq

end Deadlines

section Price

theorem apart_of_laxity {deadline now cost : UInt64} (h : flowRedLaxity deadline now cost ≠ 0)
    (hnear : deadline.toNat ≤ now.toNat + 2 ^ 42) (hnow : now.toNat < 2 ^ 63) :
    Apart deadline now (deadline - now).toNat := by
  obtain ⟨-, -, hle⟩ := flowRedLaxity_ne_zero.mp h
  have hword := And.intro deadline.toNat_lt now.toNat_lt
  have hsub : (deadline - now).toNat + now.toNat = deadline.toNat := by
    rw [UInt64.toNat_sub] at hle ⊢
    omega
  exact ⟨by omega, by omega, by omega⟩

/-- A candidate that passes costs no credit or some, and under load the fixed price. -/
theorem flowReclaimCandidateOk_price {cell c : UInt64} {t : FlowReclaimTail}
    (hok : flowReclaimCandidateOk cell t = some c)
    (hnear : t.rctx.deadline.toNat ≤ t.now.toNat + 2 ^ 42) (hnow : t.now.toNat < 2 ^ 63) :
    c.toNat + (if t.tiersEmpty then 0 else 256000) ≤ cell.toNat := by
  obtain ⟨hfits, hpaid⟩ := flowReclaimCandidateOk_eq_some.mp hok
  have hlax : t.laxity ≠ 0 := by
    unfold FlowReclaimTail.fits at hfits
    simp only [Bool.and_eq_true, decide_eq_true_eq] at hfits
    exact hfits.1.1.1
  have hexc : flowReclaimExceed t.rctx t.now = 0 :=
    t.exceedAt_eq_zero (apart_of_laxity hlax hnear hnow) hlax _
  have hneed : t.need = flowRedEmaxNs := by
    unfold FlowReclaimTail.need flowCreditNeed
    rw [hexc]
    rfl
  rcases hf : t.funded with _ | _
  · rw [hf, if_neg Bool.false_ne_true] at hpaid
    rw [hpaid.1, hpaid.2]
    exact le_rfl
  · rw [hf, if_pos rfl, hneed] at hpaid
    obtain ⟨hle, -, rfl⟩ := hpaid
    have hprice : flowRedEmaxNs.toNat = 256000 := rfl
    rw [UInt64.le_iff_toNat_le] at hle
    rw [toNat_sub_of_le hle]
    split
    · omega
    · omega

end Price

section Pass

variable {s : Pass} {cpu : ℕ}

/-- What each reclaim of a pass costs. -/
def reclaimPrice (d : Depths) : ℕ := if d.empty then 0 else 256000

/-- The credit a pass still has and what its reclaims have cost. -/
def creditSpent (d : Depths) (s : Pass) : ℕ :=
  s.world.reclaimCredit.toNat + reclaimPrice d * s.reclaimMoved

theorem flowMoveOneHint_spent (d : Depths) (k : Kernel) (dsq : ℕ) (cpu queued : ℤ) (s : Pass) :
    creditSpent d (flowMoveOneHint k dsq cpu queued s).1 = creditSpent d s := by
  unfold flowMoveOneHint
  split
  · rfl
  split
  · rfl
  split
  · rfl
  split
  · rfl
  · unfold creditSpent
    simp only [walked_credit]
    rfl

theorem flowDispatchTier_spent (d : Depths) (k : Kernel) (dsq : ℕ) (cpu queued : ℤ) (s : Pass) :
    creditSpent d (flowDispatchTier k dsq cpu queued s).1 = creditSpent d s := by
  unfold flowDispatchTier
  split
  · split
    · exact flowMoveOneHint_spent d k dsq cpu queued s
    · rfl
  · rfl

theorem tierMoves_spent (k : Kernel) (cpu node : ℕ) (d : Depths) (s : Pass) :
    creditSpent d (tierMoves k cpu node d s) = creditSpent d s :=
  (flowDispatchTier_spent d k _ cpu d.mq0 _).trans
    ((flowDispatchTier_spent d k _ cpu d.nq0 _).trans (flowDispatchTier_spent d k _ cpu d.lq0 s))

theorem flowDispatchSteal_spent (k : Kernel) (cpu : ℕ) (d : Depths) (s : Pass) :
    creditSpent d (flowDispatchSteal k cpu d s) = creditSpent d s := by
  have hadvance (w : World) (cursor moved : ℕ) :
      (flowCursorAdvance w cpu cursor moved).reclaimCredit = w.reclaimCredit := by
    unfold flowCursorAdvance
    split
    · rfl
    · split
      · rfl
      · rfl
  have hsteal (cursor : ℕ) :
      creditSpent d (flowStealOne k cpu cursor s).1 = creditSpent d s := by
    rcases flowStealOne_cases k cpu cursor s with hst | ⟨peer, -, -, hst⟩
    · rw [hst]
    · rw [hst]
      exact flowMoveOneHint_spent ..
  unfold flowDispatchSteal
  split
  · simp only
    split
    · rw [← hsteal]
      exact congrArg (fun c : UInt64 => c.toNat + _) (hadvance _ _ _)
    · rfl
  · rfl

/-- The reclaim of a pass pays for what it moves. -/
theorem flowDispatchReclaim_spent (d : Depths) (hnow : k.now.toNat < 2 ^ 63)
    (hnear : ∀ q t, s.world.taskCtx q = some t → t.deadline.toNat ≤ k.now.toNat + 2 ^ 42) :
    creditSpent d (flowDispatchReclaim k cpu d s) ≤ creditSpent d s := by
  unfold flowDispatchReclaim
  split
  swap
  · exact le_rfl
  rename_i hopen
  simp only
  split
  swap
  · exact le_rfl
  change creditSpent d
    (let r := flowRejectReclaimOne k cpu (nrQueued s.world flowOverflowDsq) d.empty s
    { r.1 with
      left := r.1.left - if r.2 > r.1.left then r.1.left else r.2
      localMoved := r.1.localMoved + if r.2 > r.1.left then r.1.left else r.2
      reclaimMoved := r.1.reclaimMoved + if r.2 > r.1.left then r.1.left else r.2 }) ≤ _
  by_cases hw : ReclaimWalks cpu (nrQueued s.world flowOverflowDsq) d.empty s
  swap
  · rw [flowRejectReclaimOne_skips hw]
    exact le_rfl
  rw [flowRejectReclaimOne_walks hw]
  rcases hhit : (reclaimWalk k cpu d.empty s).hit with _ | e
  · refine le_of_eq ?_
    unfold creditSpent
    simp only [walked_credit]
    rfl
  · obtain ⟨t, c, ht, htest, hok⟩ := reclaimWalk_hit hhit
    have hprice := flowReclaimCandidateOk_price hok (hnear e.task t ht) hnow
    have hcell : ((reclaimPaid k cpu d.empty s e).walked flowOverflowDsq cpu
        (reclaimWalk k cpu d.empty s)
        (flowMoveCandidate k flowOverflowDsq cpu e.task)).world.reclaimCredit = c := by
      rw [walked_credit]
      unfold reclaimPaid
      rw [htest]
      rfl
    change c.toNat + reclaimPrice d ≤ s.world.reclaimCredit.toNat at hprice
    simp only
    generalize hmoved : (if (if flowMoveCandidate k flowOverflowDsq cpu e.task then 1 else 0)
      > ((reclaimPaid k cpu d.empty s e).walked flowOverflowDsq (cpu : ℤ).toNat
        (reclaimWalk k cpu d.empty s) (flowMoveCandidate k flowOverflowDsq cpu e.task)).left then _
      else _) = n
    have hone : reclaimPrice d * n ≤ reclaimPrice d := by
      refine (Nat.mul_le_mul_left _ ?_).trans_eq (Nat.mul_one _)
      rw [← hmoved]
      split_ifs <;> omega
    unfold creditSpent
    show UInt64.toNat (Pass.world (Pass.walked _ _ _ _ _)).reclaimCredit
      + reclaimPrice d * (s.reclaimMoved + n) ≤ _
    rw [Int.toNat_natCast, hcell, Nat.mul_add]
    omega

/-- The credit that a dispatch leaves and the price of what it reclaimed come out of what it found. -/
theorem flowDispatch_credit (hl : flowCpuLive w cpu = true) (hslots : k.nrSlots ≠ 0)
    (hnow : k.now.toNat < 2 ^ 63)
    (hnear : ∀ q t, w.taskCtx q = some t → t.deadline.toNat ≤ k.now.toNat + 2 ^ 42) :
    (flowDispatch w k cpu).reclaimCredit.toNat + reclaimPrice (flowDispatchDepths w cpu)
        * (reclaimsOf (flowDispatchPass w k cpu true).log).length
      ≤ w.reclaimCredit.toNat := by
  have hc := (flowCpuLive_iff.mp hl).2
  have hacc := flowDispatchPass_accounted (k := k) hl hslots true
  obtain ⟨-, -, htally⟩ := flowDispatchMoves_ok (w := w) (k := k) hc (flowDispatchNode_lt w cpu)
    (flowDispatchDepths w cpu) true
  have htiers := tierMoves_walks (k := k) hl
  have hstart : creditSpent (flowDispatchDepths w cpu) (Pass.start w k.nrSlots)
      = w.reclaimCredit.toNat := rfl
  have hspent : creditSpent (flowDispatchDepths w cpu) (flowDispatchMoves k cpu
      (flowDispatchNode w cpu) (flowDispatchDepths w cpu) true (Pass.start w k.nrSlots))
        ≤ w.reclaimCredit.toNat := by
    rcases flowDispatchMoves_cases (k := k) (w := w) (flowDispatchNode w cpu)
      (flowDispatchDepths w cpu) hc true with h | h
    · rw [h, tierMoves_spent]
      exact hstart.le
    · rw [h, flowDispatchSteal_spent]
      refine (flowDispatchReclaim_spent _ hnow ?_).trans ?_
      · rw [htiers.keeps.taskCtx]
        exact hnear
      · rw [tierMoves_spent]
        exact hstart.le
  rw [flowDispatchPass_log hl hslots, ← htally.reclaims]
  show (flowDispatchPass w k cpu true).world.reclaimCredit.toNat + _ ≤ _
  rw [hacc.reclaimCredit]
  exact hspent

end Pass

section TurnCredit

/-- The rejects that a turn's pass reclaims while its tiers hold work. -/
def loadedReclaims (w : World) : Turn → ℕ
  | .call ⟨k, .dispatch cpu⟩ =>
    if (flowDispatchDepths w cpu.toNat).empty then 0
    else (reclaimsOf (flowDispatchPass w k cpu true).log).length
  | _ => 0

/-- The credit that effects add. -/
def savedOf (es : List Effect) : ℕ :=
  (es.map fun e => match e with
    | .creditAdd delta => delta.toNat
    | _ => 0).sum

theorem savedOf_append (es es' : List Effect) : savedOf (es ++ es') = savedOf es + savedOf es' := by
  unfold savedOf
  rw [List.map_append, List.sum_append]

def Effect.isSaving : Effect → Bool
  | .creditAdd _ => true
  | _ => false

theorem savedOf_eq_zero {es : List Effect} (h : ∀ e ∈ es, e.isSaving = false) : savedOf es = 0 := by
  refine List.sum_eq_zero fun n hn => ?_
  obtain ⟨e, he, rfl⟩ := List.mem_map.mp hn
  have hsave := h e he
  cases e with
  | creditAdd delta => cases hsave
  | _ => rfl

theorem flowCreditAdd_le (cur delta : UInt64) :
    (flowCreditAdd cur delta).toNat ≤ cur.toNat + delta.toNat := by
  unfold flowCreditAdd
  simp only [gt_iff_lt, UInt64.lt_iff_toNat_lt]
  split_ifs with h0 hc
  · exact Nat.le_add_right _ _
  · rw [flowSatAdd_toNat] at hc
    omega
  · rw [flowSatAdd_toNat]
    exact min_le_left _ _

theorem perform_credit (w : World) (k : Kernel) (p : TaskRef) (e : Effect) :
    (w.perform k p e).reclaimCredit.toNat ≤ w.reclaimCredit.toNat + savedOf [e] := by
  have hsame {e : Effect} (h : (w.perform k p e).reclaimCredit = w.reclaimCredit) :
      (w.perform k p e).reclaimCredit.toNat ≤ w.reclaimCredit.toNat + savedOf [e] := by
    rw [h]
    exact Nat.le_add_right _ _
  cases e with
  | creditAdd delta => exact flowCreditAdd_le w.reclaimCredit delta
  | count c n => exact hsame (by rw [World.perform, flowCount_eq])
  | cacheFill pid id => exact hsame (by rw [World.perform, cacheFill_eq])
  | cacheInvalidate pid => exact hsame (by rw [World.perform, flowCgrpCacheInvalidate_eq])
  | clearRunningIfOwner cpu pid => exact hsame (by rw [World.perform, flowClearRunningIfOwner_eq])
  | clearRunning cpu => exact hsame (by rw [World.perform, flowClearRunning_eq])
  | minAdvance cpu v => exact hsame (by rw [World.perform, flowMinAdvance_eq])
  | _ => exact hsame rfl

theorem run_credit : ∀ (es : List Effect) (w : World),
    (w.run k p es).reclaimCredit.toNat ≤ w.reclaimCredit.toNat + savedOf es
  | [], _ => Nat.le_add_right _ _
  | e :: es, w => by
    have hone := perform_credit w k p e
    have hrest := run_credit es (w.perform k p e)
    rw [run_cons, ← List.singleton_append, savedOf_append]
    omega

theorem flowStopAdapt_saves (t : FlowTaskCtx) (now delta : UInt64) (miss isLat : Bool)
    (costAvg : UInt64) :
    (flowStopAdapt t now delta miss isLat costAvg).adaptDelta.toNat ≤ 20000000 :=
  flowStopCommit_adaptDelta_le _

theorem flowStopSegment_saves (t : FlowTaskCtx) (ts : TaskStruct) (start now : UInt64)
    (runnable : Bool) :
    savedOf (flowStopSegment t ts start now runnable).eff ≤ if runnable then 0 else 20000000 := by
  unfold flowStopSegment
  simp only
  generalize flowStopCharged t (flowStopDelta now start) = c
  have hcharge : savedOf (if flowStopDelta now start ≠ 0 then [.count .totalRuntime
      (flowStopDelta now start), .minAdvance ts.taskCpu c.vruntime] else []) = 0 := by
    split
    · rfl
    · rfl
  cases runnable with
  | true =>
    rw [if_pos rfl, if_pos rfl, savedOf_append, hcharge]
    exact le_rfl
  | false =>
    rw [if_neg Bool.false_ne_true, if_neg Bool.false_ne_true]
    simp only [savedOf_append, hcharge]
    have hmissed {P : Prop} [Decidable P] :
        savedOf (if P then [.count .misses 1] else []) = 0 := by
      split
      · rfl
      · rfl
    have hclear : savedOf [.clearRunningIfOwner ts.taskCpu ts.pid] = 0 := rfl
    have hcompleted : savedOf [.count .completions 1] = 0 := rfl
    have hcredit (a : FlowTaskCtx) : savedOf [.creditAdd a.adaptDelta.toUInt64]
        = a.adaptDelta.toNat := (Nat.add_zero _).trans (UInt32.toNat_toUInt64 _)
    rw [hmissed, hclear, hcompleted, Nat.zero_add]
    simp only [Nat.add_zero]
    split
    · rw [hcredit]
      exact flowStopAdapt_saves ..
    · exact Nat.zero_le _

/-- A stop saves nothing, or on a completion the cost of one slice at most. -/
theorem flowStopping_saves (w : World) (k : Kernel) (p : TaskRef) (runnable : Bool) :
    savedOf (flowStopping w k p runnable).eff
      ≤ 20000000 * ended false w (.call ⟨k, .stopping p runnable⟩) := by
  show _ ≤ 20000000 * if runnable = false then (takesOf (flowStopping w k p runnable).eff).length
    else 0
  unfold flowStopping
  simp only
  split
  · exact Nat.zero_le _
  split
  · exact Nat.zero_le _
  rename_i t _
  split
  · exact Nat.zero_le _
  have hsaves := flowStopSegment_saves { t with runAt := 0 } (k.task p) t.runAt k.now runnable
  generalize flowStopSegment { t with runAt := 0 } (k.task p) t.runAt k.now runnable = o at hsaves
  have htake : savedOf (.takeRun t.runAt (flowStopDelta k.now t.runAt) :: o.eff) = savedOf o.eff :=
    (savedOf_append [_] o.eff).trans (Nat.zero_add _)
  rw [htake]
  refine hsaves.trans ?_
  cases runnable with
  | true => exact Nat.zero_le _
  | false => exact Nat.le_mul_of_pos_right _ (Nat.succ_pos _)

theorem step_credit {s : RunState} {c : Call} (hnow : c.view.now.toNat < 2 ^ 63)
    (hnear : ∀ q t, s.world.taskCtx q = some t → t.deadline.toNat ≤ c.view.now.toNat + 2 ^ 42) :
    (s.world.step c).reclaimCredit.toNat + 256000 * loadedReclaims s.world (.call c)
      ≤ s.world.reclaimCredit.toNat + 20000000 * ended false s.world (.call c) := by
  obtain ⟨k, op⟩ := c
  have hsame (hl : loadedReclaims s.world (.call ⟨k, op⟩) = 0)
      (h : (s.world.step ⟨k, op⟩).reclaimCredit = s.world.reclaimCredit) :
      (s.world.step ⟨k, op⟩).reclaimCredit.toNat + 256000 * loadedReclaims s.world (.call ⟨k, op⟩)
        ≤ s.world.reclaimCredit.toNat + 20000000 * ended false s.world (.call ⟨k, op⟩) := by
    rw [h, hl]
    exact Nat.le_add_right _ _
  have hcommit {q : TaskRef} {o : OpOut} (h : op.onTask s.world k = some (q, o))
      (hl : loadedReclaims s.world (.call ⟨k, op⟩) = 0)
      (hsave : savedOf o.eff ≤ 20000000 * ended false s.world (.call ⟨k, op⟩)) :
      (s.world.step ⟨k, op⟩).reclaimCredit.toNat + 256000 * loadedReclaims s.world (.call ⟨k, op⟩)
        ≤ s.world.reclaimCredit.toNat + 20000000 * ended false s.world (.call ⟨k, op⟩) := by
    have hrun := run_credit (k := k) (p := q) o.eff
      { s.world with taskCtx := Function.update s.world.taskCtx q o.ctx }
    rw [World.step_onTask h, hl]
    change (s.world.commit k q o).reclaimCredit.toNat ≤ s.world.reclaimCredit.toNat + _ at hrun
    omega
  have hbracket {q : TaskRef} {o : OpOut} (h : op.onTask s.world k = some (q, o))
      (henqueue : ∀ p enqFlags, op ≠ .enqueue p enqFlags)
      (hstopping : ∀ p runnable, op ≠ .stopping p runnable) : savedOf o.eff = 0 := by
    refine savedOf_eq_zero fun e he => ?_
    have hb := bracket_effects h henqueue hstopping e he
    cases e with
    | creditAdd delta => cases hb
    | _ => rfl
  have hcgroup (hop : op.isCgroup = true) :
      (s.world.step ⟨k, op⟩).reclaimCredit = s.world.reclaimCredit := by
    obtain ⟨stor, cache, heq⟩ := step_cgroup s.world k hop
    rw [heq]
  cases op with
  | enqueue q enqFlags =>
    refine hcommit rfl rfl (le_of_eq (savedOf_eq_zero fun e he => ?_))
    have heff := flowEnqueue_effects s.world k q enqFlags e he
    cases e with
    | creditAdd delta => exact heff.elim (fun h => nomatch h) fun h => nomatch h
    | _ => rfl
  | running q =>
    exact hcommit rfl rfl (hbracket rfl (fun _ _ h => nomatch h) fun _ _ h => nomatch h).le
  | stopping q runnable => exact hcommit rfl rfl (flowStopping_saves s.world k q runnable)
  | enable q =>
    exact hcommit rfl rfl (hbracket rfl (fun _ _ h => nomatch h) fun _ _ h => nomatch h).le
  | disable q =>
    exact hcommit rfl rfl (hbracket rfl (fun _ _ h => nomatch h) fun _ _ h => nomatch h).le
  | exitTask q =>
    exact hcommit rfl rfl (hbracket rfl (fun _ _ h => nomatch h) fun _ _ h => nomatch h).le
  | cpuRelease cpu =>
    refine hsame rfl ?_
    show (flowCpuRelease s.world k cpu).reclaimCredit = _
    unfold flowCpuRelease
    split
    · rw [flowCount_eq]
    · rw [flowClearRunning_eq]
  | dispatch cpu =>
    show (flowDispatch s.world k cpu).reclaimCredit.toNat + 256000 * loadedReclaims s.world
      (.call ⟨k, .dispatch cpu⟩) ≤ _ + 0
    rw [Nat.add_zero]
    rcases flowDispatch_cases s.world k cpu with ⟨hlog, stats, levels, hw⟩ | ⟨n, rfl, hl, hslots⟩
    · rw [hw, loadedReclaims, hlog]
      split
      · exact le_rfl
      · exact le_rfl
    · have hprice : 256000 * loadedReclaims s.world (.call ⟨k, .dispatch n⟩)
          = reclaimPrice (flowDispatchDepths s.world n)
            * (reclaimsOf (flowDispatchPass s.world k n true).log).length := by
        show 256000 * (if (flowDispatchDepths s.world n).empty then 0 else _)
          = (if (flowDispatchDepths s.world n).empty then 0 else 256000) * _
        split
        · exact (Nat.zero_mul _).symm
        · rfl
      rw [hprice]
      exact flowDispatch_credit hl hslots hnow hnear
  | setWeight q weight =>
    refine hsame rfl ?_
    show (flowSetWeight s.world q weight).reclaimCredit = _
    rw [flowSetWeight_eq]
  | cgroupInit cgrp => exact hsame rfl (hcgroup rfl)
  | cgroupExit cgrp => exact hsame rfl (hcgroup rfl)
  | cgroupMove q dst => exact hsame rfl (hcgroup rfl)
  | cgroupSetWeight cgrp weight => exact hsame rfl (hcgroup rfl)

theorem select_credit (w : World) (k : Kernel) (es : List SelectEffect) :
    (w.select k es).reclaimCredit = w.reclaimCredit :=
  List.foldl_observe World.reclaimCredit w fun w e _ => by
    split
    · rfl
    · rw [flowCount_eq]

theorem seedTopoWith_credit (w : World) (rows : List TopoRow) :
    (seedTopoWith w rows).reclaimCredit = w.reclaimCredit :=
  List.foldl_observe World.reclaimCredit w fun w row _ => by
    split
    · rfl
    · rfl

/-- What a turn leaves of the credit and what its loaded reclaims cost come out of what it found and
what it saved. -/
theorem turn_credit {s : RunState} {t : Turn} (ht : TicksLow s t) (h : DeadlinesNear s) :
    (timed.step s t).world.reclaimCredit.toNat + 256000 * loadedReclaims s.world t
      ≤ s.world.reclaimCredit.toNat + 20000000 * ended false s.world t := by
  have hle : s.clock.toNat ≤ (t.clock s.clock).toNat := UInt64.le_iff_toNat_le.mp ht.1
  cases t with
  | call c => exact step_credit ht.2 fun q t hq => (h q t hq).trans (Nat.add_le_add_right hle _)
  | select k cap r prevCpu => exact (congrArg UInt64.toNat (select_credit s.world k _)).le
  | seed rows => exact (congrArg UInt64.toNat (seedTopoWith_credit s.world rows)).le
  | pick cpu => exact le_rfl
  | dequeue r dsq => exact le_rfl

/-- Over every run, the credit it ends with and the price of the reclaims from behind work come out
of the credit it starts with and of the completions in it. -/
theorem run_overload {s : RunState} {ts : List Turn} (hs : DeadlinesNear s)
    (h : timed.Along TicksLow s ts) :
    (timed.exec s ts).world.reclaimCredit.toNat
        + 256000 * timed.total (fun s t => loadedReclaims s.world t) s ts
      ≤ s.world.reclaimCredit.toNat
        + 20000000 * timed.total (fun s t => ended false s.world t) s ts := by
  rw [← Machine.total_mul, ← Machine.total_mul]
  exact Machine.amortized (I := DeadlinesNear) (φ := fun s => s.world.reclaimCredit.toNat)
    (fun _ _ ht hi => hi.step ht.1) (fun _ _ ht hi _ => turn_credit ht hi) h hs le_rfl

theorem run_overload_reclaimsOne : let s : RunState := ⟨World.boot 2 1 fun _ => 0, 1000⟩
    timed.total (fun s t => loadedReclaims s.world t) s reclaimsOne = 1
      ∧ (timed.exec s reclaimsOne).world.reclaimCredit.toNat
          + 256000 * timed.total (fun s t => loadedReclaims s.world t) s reclaimsOne
        ≤ s.world.reclaimCredit.toNat
          + 20000000 * timed.total (fun s t => ended false s.world t) s reclaimsOne :=
  ⟨by decide +kernel, run_overload (s := ⟨World.boot 2 1 fun _ => 0, 1000⟩)
    (fun _ _ ht => nomatch ht) (by decide +kernel)⟩

end TurnCredit

end ScxFlow
