import ScxFlow.Proofs.Tallies
import ScxFlow.Proofs.Turns

/-!
# What the counters tell

What a turn counts is what it does: the kicks it sends, the tasks its pass moves, the segment it ends
and the service it charges (`turn_tells`).  So a poll answers with what a run has done
(`run_tallies`).
-/

namespace ScxFlow

variable {w : World} {k : Kernel} {p : TaskRef} {c : Counter}

section Done

/-- The service that each segment an op ends is charged. -/
def takesOf (es : List Effect) : List UInt64 :=
  es.filterMap fun e => match e with
    | .takeRun _ delta => some delta
    | _ => none

/-- The visits of a turn's pass. -/
def passLog (w : World) : Turn → List Visit
  | .call ⟨k, .dispatch cpu⟩ => (flowDispatchPass w k cpu true).log
  | _ => []

/-- The segments a turn ends with a stop of this kind. -/
def ended (runnable : Bool) (w : World) : Turn → ℕ
  | .call ⟨k, .stopping p r⟩ =>
    if r = runnable then (takesOf (flowStopping w k p r).eff).length else 0
  | _ => 0

/-- What a turn counts is what it does. -/
structure TellsDone (w : World) (t : Turn) : Prop where
  kicks : amountOf .kicks (turnEffects w t) = (kicksOf (turnEffects w t)).length
  preempts : amountOf .preemptKicks (turnEffects w t) = (preemptsOf (turnEffects w t)).length
  moves : amountOf .localMoves (turnEffects w t) + amountOf .nodeMoves (turnEffects w t)
    + amountOf .machineMoves (turnEffects w t) = (movesOf (passLog w t)).length
  reclaims : amountOf .redReclaims (turnEffects w t) = (reclaimsOf (passLog w t)).length
  runtime : amountOf .totalRuntime (turnEffects w t)
    = ((takesOf (turnEffects w t)).map UInt64.toNat).sum
  requeues : amountOf .requeues (turnEffects w t) = ended true w t
  completions : amountOf .completions (turnEffects w t) = ended false w t
  segments : (takesOf (turnEffects w t)).length = ended true w t + ended false w t

/-- The counters that tell of kicks, segments and passes. -/
def Counter.told : Counter → Bool
  | .gateRejects | .misses | .inserts | .admits | .redRejects | .preemptSkipped => false
  | _ => true

/-- Neither a kick, nor the end of a segment, nor a count of these or of a pass. -/
def Effect.isIdle : Effect → Bool
  | .kickIdle _ | .kickPreempt _ | .takeRun _ _ => false
  | .count c _ => !c.told
  | _ => true

theorem amountOf_idle {es : List Effect} (hc : c.told = true) (h : ∀ e ∈ es, e.isIdle = true) :
    amountOf c es = 0 := by
  have hnone : countsOf c es = [] := by
    rw [countsOf_eq_nil]
    intro e he
    have hi := h e he
    cases e with
    | count c' n =>
      refine decide_eq_false ?_
      rintro rfl
      have huntold : (!c'.told) = true := hi
      rw [hc] at huntold
      cases huntold
    | _ => rfl
  unfold amountOf
  rw [hnone]
  rfl

theorem takesOf_idle {es : List Effect} (h : ∀ e ∈ es, e.isIdle = true) : takesOf es = [] := by
  refine List.filterMap_eq_nil_iff.mpr fun e he => ?_
  have hi := h e he
  cases e with
  | takeRun start delta => cases hi
  | _ => rfl

theorem kicksOf_idle {es : List Effect} (h : ∀ e ∈ es, e.isIdle = true) :
    kicksOf es = [] ∧ preemptsOf es = [] := by
  constructor
  · refine List.filter_eq_nil_iff.mpr fun e he => ?_
    have hi := h e he
    cases e with
    | kickIdle cpu => cases hi
    | kickPreempt cpu => cases hi
    | _ => exact Bool.false_ne_true
  · refine List.filter_eq_nil_iff.mpr fun e he => ?_
    have hi := h e he
    cases e with
    | kickPreempt cpu => cases hi
    | _ => exact Bool.false_ne_true

theorem TellsDone.idle {t : Turn} (h : ∀ e ∈ turnEffects w t, e.isIdle = true)
    (hlog : passLog w t = []) (hended : ∀ r, ended r w t = 0) : TellsDone w t where
  kicks := by rw [amountOf_idle rfl h, (kicksOf_idle h).1, List.length_nil]
  preempts := by rw [amountOf_idle rfl h, (kicksOf_idle h).2, List.length_nil]
  moves := by
    rw [amountOf_idle rfl h, amountOf_idle rfl h, amountOf_idle rfl h, hlog]
    rfl
  reclaims := by
    rw [amountOf_idle rfl h, hlog]
    rfl
  runtime := by
    rw [amountOf_idle rfl h, takesOf_idle h]
    rfl
  requeues := by rw [amountOf_idle rfl h, hended]
  completions := by rw [amountOf_idle rfl h, hended]
  segments := by
    rw [takesOf_idle h, hended, hended]
    rfl

theorem amountOf_ones {es : List Effect} {n : ℕ} (h : countsOf c es = List.replicate n 1) :
    amountOf c es = n := by
  unfold amountOf
  rw [h, List.map_replicate, List.sum_replicate_nat, UInt64.toNat_one, Nat.mul_one]

/-- An enqueue only kicks, apart from what tells of nothing. -/
theorem flowEnqueue_kicksOrIdle (w : World) (k : Kernel) (p : TaskRef) (enqFlags : UInt64) :
    ∀ e ∈ (flowEnqueue w k p enqFlags).eff, e.isKick = true ∨ e.isIdle = true := by
  intro e he
  refine (flowEnqueue_effects w k p enqFlags e he).imp_right fun h => ?_
  cases e with
  | count c n =>
    cases c with
    | inserts => rfl
    | misses => rfl
    | admits => rfl
    | redRejects => rfl
    | gateRejects => rfl
    | _ => cases h
  | insertVtime dsq key flags => rfl
  | insert dsq flags => rfl
  | storeDeadline deadline => rfl
  | cacheFill pid id => rfl
  | _ => cases h

theorem enqueue_tells (p : TaskRef) (enqFlags : UInt64) :
    TellsDone w (.call ⟨k, .enqueue p enqFlags⟩) := by
  have hparts := flowEnqueue_kicksOrIdle w k p enqFlags
  have hkick := flowEnqueue_kickContract w k p enqFlags
  have hnone {c : Counter} (hc : c.told = true) (hk : c ≠ .kicks) (hp : c ≠ .preemptKicks) :
      amountOf c (flowEnqueue w k p enqFlags).eff = 0 := by
    have hcounts : countsOf c (flowEnqueue w k p enqFlags).eff = [] := by
      rw [countsOf_eq_nil]
      intro e he
      cases e with
      | count c' n =>
        refine decide_eq_false ?_
        rintro rfl
        rcases hparts _ he with hkicks | hidle
        · cases c' with
          | kicks => exact hk rfl
          | preemptKicks => exact hp rfl
          | preemptSkipped => cases hc
          | _ => cases hkicks
        · have huntold : (!c'.told) = true := hidle
          rw [hc] at huntold
          cases huntold
      | _ => rfl
    unfold amountOf
    rw [hcounts]
    rfl
  have htakes : takesOf (flowEnqueue w k p enqFlags).eff = [] := by
    refine List.filterMap_eq_nil_iff.mpr fun e he => ?_
    cases e with
    | takeRun start delta =>
      rcases hparts _ he with hkicks | hidle
      · cases hkicks
      · cases hidle
    | _ => rfl
  have heff : turnEffects w (.call ⟨k, .enqueue p enqFlags⟩) = (flowEnqueue w k p enqFlags).eff :=
    turnEffects_onTask rfl
  constructor
  case kicks => rw [heff, amountOf_ones hkick.counted]
  case preempts => rw [heff, amountOf_ones hkick.countedPreempts]
  case moves =>
    rw [heff, hnone rfl (by decide) (by decide), hnone rfl (by decide) (by decide),
      hnone rfl (by decide) (by decide)]
    rfl
  case reclaims =>
    rw [heff, hnone rfl (by decide) (by decide)]
    rfl
  case runtime =>
    rw [heff, hnone rfl (by decide) (by decide), htakes]
    rfl
  case requeues =>
    rw [heff, hnone rfl (by decide) (by decide)]
    rfl
  case completions =>
    rw [heff, hnone rfl (by decide) (by decide)]
    rfl
  case segments =>
    rw [heff, htakes]
    rfl

theorem takesOf_append (es es' : List Effect) : takesOf (es ++ es') = takesOf es ++ takesOf es' :=
  List.filterMap_append

theorem chargeEffects_amount (ts : TaskStruct) (t : FlowTaskCtx) (delta : UInt64) :
    amountOf c (chargeEffects ts t delta) = if c = .totalRuntime then delta.toNat else 0 := by
  unfold chargeEffects
  by_cases hd : delta = 0
  · rw [if_neg (not_not.mpr hd), hd, UInt64.toNat_zero, ite_self]
    rfl
  · rw [if_pos hd, amountOf_cons, amountOf_count]
    exact if_congr eq_comm rfl rfl

theorem chargeEffects_calm (ts : TaskStruct) (t : FlowTaskCtx) (delta : UInt64) :
    takesOf (chargeEffects ts t delta) = [] ∧ kicksOf (chargeEffects ts t delta) = []
      ∧ preemptsOf (chargeEffects ts t delta) = [] := by
  unfold chargeEffects
  split
  · exact ⟨rfl, rfl, rfl⟩
  · exact ⟨rfl, rfl, rfl⟩

/-- The counter of a stop. -/
def endCounter (runnable : Bool) : Counter := if runnable then .requeues else .completions

/-- A stop past its claim charges the service and counts its own kind of end. -/
theorem StopEff.tells {ts : TaskStruct} {t : FlowTaskCtx} {now delta : UInt64} {runnable : Bool}
    {es : List Effect} (h : StopEff ts t now delta runnable es) :
    (c.told = true → amountOf c es = (if c = .totalRuntime then delta.toNat else 0)
        + if c = endCounter runnable then 1 else 0)
      ∧ takesOf es = [] ∧ kicksOf es = [] ∧ preemptsOf es = [] := by
  obtain ⟨htakes, hkicks, hpreempts⟩ := chargeEffects_calm ts t delta
  have hsplit {m : List Effect} (hes : es = chargeEffects ts t delta ++ m
      ++ [.count (endCounter runnable) 1]) (hm : ∀ e ∈ m, e.isIdle = true) :
      (c.told = true → amountOf c es = (if c = .totalRuntime then delta.toNat else 0)
          + if c = endCounter runnable then 1 else 0)
        ∧ takesOf es = [] ∧ kicksOf es = [] ∧ preemptsOf es = [] := by
    subst hes
    obtain ⟨hk, hp⟩ := kicksOf_idle hm
    unfold kicksOf at hkicks hk ⊢
    unfold preemptsOf at hpreempts hp ⊢
    refine ⟨fun hc => ?_, ?_, ?_, ?_⟩
    · rw [amountOf_append, amountOf_append, chargeEffects_amount, amountOf_idle hc hm,
        amountOf_count, Nat.add_zero]
      exact congrArg _ (if_congr eq_comm rfl rfl)
    · rw [takesOf_append, takesOf_append, htakes, takesOf_idle hm]
      rfl
    · rw [List.filter_append, List.filter_append, hkicks, hk]
      rfl
    · rw [List.filter_append, List.filter_append, hpreempts, hp]
      rfl
  cases h with
  | requeue =>
    refine hsplit (m := [.clearRunningIfOwner ts.taskCpu ts.pid]) ?_ fun e he => ?_
    · rw [List.append_assoc]
      rfl
    · rw [List.mem_singleton.mp he]
      rfl
  | @complete credit hcredit =>
    refine hsplit (m := credit ++ [.clearRunningIfOwner ts.taskCpu ts.pid]
      ++ if flowMissed t.deadline now then [.count .misses 1] else []) ?_ fun e he => ?_
    · simp only [List.append_assoc]
      rfl
    · rcases List.mem_append.mp he with he | he
      · rcases List.mem_append.mp he with he | he
        · rcases hcredit with rfl | ⟨d, rfl⟩
          · exact absurd he List.not_mem_nil
          · rw [List.mem_singleton.mp he]
            rfl
        · rw [List.mem_singleton.mp he]
          rfl
      · split at he
        · rw [List.mem_singleton.mp he]
          rfl
        · exact absurd he List.not_mem_nil

/-- A stop counts the segment it ends and the service it charges. -/
theorem stopping_tells (p : TaskRef) (runnable : Bool) :
    TellsDone w (.call ⟨k, .stopping p runnable⟩) := by
  have heff : turnEffects w (.call ⟨k, .stopping p runnable⟩)
      = (flowStopping w k p runnable).eff := turnEffects_onTask rfl
  have hended (r : Bool) : ended r w (.call ⟨k, .stopping p runnable⟩)
      = if runnable = r then (takesOf (flowStopping w k p runnable).eff).length else 0 := rfl
  rcases flowStopping_cases w k p runnable with ⟨-, -, hstop⟩ | ⟨-, -, -, hstop⟩ |
    ⟨t, t', es, -, -, -, -, hstop, -, hes⟩
  · refine .idle ?_ rfl fun r => ?_
    · rw [heff, hstop]
      intro e he
      rw [List.mem_singleton.mp he]
      rfl
    · rw [hended, hstop]
      exact ite_self 0
  · refine .idle ?_ rfl fun r => ?_
    · rw [heff, hstop]
      intro e he
      rw [List.mem_singleton.mp he]
      rfl
    · rw [hended, hstop]
      exact ite_self 0
  obtain ⟨-, htakes, hkicks, hpreempts⟩ := hes.tells (c := .kicks)
  have hamount {c : Counter} (hc : c.told = true) :
      amountOf c (flowStopping w k p runnable).eff
        = (if c = .totalRuntime then (flowStopDelta k.now t.runAt).toNat else 0)
          + if c = endCounter runnable then 1 else 0 := by
    rw [hstop]
    exact (hes.tells (c := c)).1 hc
  have htook : takesOf (flowStopping w k p runnable).eff = [flowStopDelta k.now t.runAt] := by
    rw [hstop]
    exact congrArg (_ :: ·) htakes
  have hlast (c : Counter) (hc : c ≠ .requeues ∧ c ≠ .completions) : c ≠ endCounter runnable := by
    unfold endCounter
    split
    · exact hc.1
    · exact hc.2
  constructor
  case kicks =>
    rw [heff, hamount rfl, if_neg (by decide), if_neg (hlast _ (by decide)), hstop]
    exact (congrArg List.length hkicks).symm
  case preempts =>
    rw [heff, hamount rfl, if_neg (by decide), if_neg (hlast _ (by decide)), hstop]
    exact (congrArg List.length hpreempts).symm
  case moves =>
    rw [heff, hamount rfl, hamount rfl, hamount rfl]
    simp [hlast, passLog, movesOf]
  case reclaims =>
    rw [heff, hamount rfl, if_neg (by decide), if_neg (hlast _ (by decide))]
    rfl
  case runtime =>
    rw [heff, hamount rfl, if_pos rfl, if_neg (hlast _ (by decide)), htook]
    rfl
  case requeues =>
    rw [heff, hamount rfl, if_neg (by decide), hended, htook]
    cases runnable
    · rfl
    · rfl
  case completions =>
    rw [heff, hamount rfl, if_neg (by decide), hended, htook]
    cases runnable
    · rfl
    · rfl
  case segments =>
    rw [heff, hended, hended, htook]
    cases runnable
    · rfl
    · rfl

theorem passCounts_amount (cpu : ℤ) (hopen : ¬ (0 ≤ cpu ∧ flowCpuLive w cpu.toNat = false)) :
    let s := flowDispatchPass w k cpu true
    amountOf c (passCounts w k cpu)
      = (if .localMoves = c then (UInt64.ofNat s.localMoved).toNat else 0)
        + ((if .nodeMoves = c then (UInt64.ofNat s.nodeMoved).toNat else 0)
        + ((if .machineMoves = c then (UInt64.ofNat s.machineMoved).toNat else 0)
        + if .redReclaims = c then (UInt64.ofNat s.reclaimMoved).toNat else 0)) := by
  unfold passCounts
  rw [if_neg hopen]
  simp only
  rw [amountOf_cons, amountOf_cons c (.count .nodeMoves _), amountOf_cons c (.count .machineMoves _),
    amountOf_count, amountOf_count, amountOf_count, amountOf_count]

/-- The move counts of a pass are its moves. -/
theorem flowDispatchPass_tallied (w : World) (k : Kernel) (cpu : ℤ) :
    Tallied (flowDispatchPass w k cpu true)
      ∧ (movesOf (flowDispatchPass w k cpu true).log).length ≤ flowDispatchMaxVisit := by
  by_cases h0 : cpu < 0
  · unfold flowDispatchPass
    rw [if_pos h0]
    exact ⟨⟨rfl, rfl⟩, Nat.zero_le _⟩
  obtain ⟨n, rfl⟩ : ∃ n : ℕ, cpu = n := ⟨cpu.toNat, by omega⟩
  rcases hlive : flowCpuLive w n with _ | _
  · unfold flowDispatchPass
    rw [if_neg h0, Int.toNat_natCast, hlive]
    exact ⟨⟨rfl, rfl⟩, Nat.zero_le _⟩
  · obtain ⟨s, ⟨Q, hok⟩, ⟨hmoves, hreclaims⟩, hlog, -, -, htally, -⟩ :=
      flowDispatchPass_live (k := k) hlive true
    obtain ⟨h1, h2, h3, h4⟩ : _ ∧ _ ∧ _ ∧ _ := by
      simpa only [Pass.tally, Prod.mk.injEq] using htally
    refine ⟨⟨?_, ?_⟩, ?_⟩
    · rw [h1, h2, h3, hlog, hmoves]
    · rw [h4, hlog, hreclaims]
    · rw [hlog]
      exact (List.length_filter_le _ _).trans (hok.count ▸ hok.cap)

theorem dispatch_tells (cpu : ℤ) : TellsDone w (.call ⟨k, .dispatch cpu⟩) := by
  have heff : turnEffects w (.call ⟨k, .dispatch cpu⟩) = passCounts w k cpu := rfl
  by_cases hclosed : 0 ≤ cpu ∧ flowCpuLive w cpu.toNat = false
  · refine .idle ?_ ?_ fun r => rfl
    · rw [heff, passCounts, if_pos hclosed]
      intro e he
      rw [List.mem_singleton.mp he]
      rfl
    · show (flowDispatchPass w k cpu true).log = []
      unfold flowDispatchPass
      rw [if_neg (by omega), hclosed.2]
      rfl
  obtain ⟨⟨hmoves, hreclaims⟩, hcap⟩ := flowDispatchPass_tallied w k cpu
  have hsub : (reclaimsOf (flowDispatchPass w k cpu true).log).length
      ≤ (movesOf (flowDispatchPass w k cpu true).log).length := List.length_filter_le _ _
  have hword (n : ℕ) (hn : n ≤ flowDispatchMaxVisit) : (UInt64.ofNat n).toNat = n := by
    rw [UInt64.toNat_ofNat']
    exact Nat.mod_eq_of_lt (hn.trans_lt (by decide))
  have hkicks : kicksOf (passCounts w k cpu) = [] ∧ preemptsOf (passCounts w k cpu) = []
      ∧ takesOf (passCounts w k cpu) = [] := by
    unfold passCounts
    rw [if_neg hclosed]
    exact ⟨rfl, rfl, rfl⟩
  have hamount (c : Counter) := passCounts_amount (k := k) (c := c) cpu hclosed
  simp only at hamount
  rw [hword _ (by omega), hword _ (by omega), hword _ (by omega), hword _ (by omega)] at hamount
  constructor
  case kicks =>
    rw [heff, hkicks.1, hamount]
    rfl
  case preempts =>
    rw [heff, hkicks.2.1, hamount]
    rfl
  case moves =>
    rw [heff, hamount, hamount, hamount, passLog, ← hmoves]
    simp
  case reclaims =>
    rw [heff, hamount, passLog, ← hreclaims]
    simp
  case runtime =>
    rw [heff, hkicks.2.2, hamount]
    rfl
  case requeues =>
    rw [heff, hamount]
    rfl
  case completions =>
    rw [heff, hamount]
    rfl
  case segments =>
    rw [heff, hkicks.2.2]
    rfl

/-- What the ops around a segment do. -/
def Effect.isBracket : Effect → Bool
  | .count .gateRejects _ | .claimRun _ | .setRunning _ _ => true
  | .clearRunningIfOwner _ _ | .cacheInvalidate _ => true
  | _ => false

theorem isIdle_of_isBracket {e : Effect} (h : e.isBracket = true) : e.isIdle = true := by
  cases e with
  | count c n =>
    cases c with
    | gateRejects => rfl
    | _ => cases h
  | claimRun stamp => rfl
  | setRunning cpu pid => rfl
  | clearRunningIfOwner cpu pid => rfl
  | cacheInvalidate pid => rfl
  | _ => cases h

/-- The ops around a segment count what they reject at most. -/
theorem bracket_effects {op : Op} {q : TaskRef} {o : OpOut} (h : op.onTask w k = some (q, o))
    (henqueue : ∀ p enqFlags, op ≠ .enqueue p enqFlags)
    (hstopping : ∀ p runnable, op ≠ .stopping p runnable) : ∀ e ∈ o.eff, e.isBracket = true := by
  have hone {e x : Effect} (hx : x.isBracket = true) (he : e ∈ [x]) : e.isBracket = true :=
    List.mem_singleton.mp he ▸ hx
  cases op with
  | enqueue p enqFlags => exact absurd rfl (henqueue p enqFlags)
  | stopping p runnable => exact absurd rfl (hstopping p runnable)
  | running p =>
    obtain ⟨rfl, rfl⟩ := Prod.mk.inj (Option.some.inj h)
    intro e he
    rcases hgate : flowEntryOk w (k.task p) (k.task p).taskCpu 0 with _ | _
    · rw [flowRunning_of_closed hgate] at he
      exact hone rfl he
    · have howner (he : e ∈ ownerEffect w (k.task p)) : e.isBracket = true := by
        obtain ⟨cpu, rfl⟩ := exists_of_mem_ownerEffect he
        rfl
      rcases flowRunning_of_open hgate with ⟨t, -, -, hrun⟩ | ⟨-, hrun⟩
      · rw [hrun] at he
        rcases List.mem_cons.mp he with rfl | he
        · rfl
        · exact howner he
      · rw [hrun] at he
        exact howner he
  | enable p =>
    obtain ⟨rfl, rfl⟩ := Prod.mk.inj (Option.some.inj h)
    unfold flowEnable
    simp only
    split
    · exact fun e he => hone rfl he
    · split
      · exact fun e he => absurd he List.not_mem_nil
      · exact fun e he => hone rfl he
  | disable p =>
    obtain ⟨rfl, rfl⟩ := Prod.mk.inj (Option.some.inj h)
    unfold flowDisable
    simp only
    split
    · exact fun e he => hone rfl he
    · intro e he
      rcases List.mem_pair.mp he with rfl | rfl
      · rfl
      · rfl
  | exitTask p =>
    obtain ⟨rfl, rfl⟩ := Prod.mk.inj (Option.some.inj h)
    intro e he
    rcases List.mem_pair.mp he with rfl | rfl
    · rfl
    · rfl
  | _ => cases h

/-- Every turn counts what it does. -/
theorem turn_tells (w : World) (t : Turn) : TellsDone w t := by
  have hnone {t : Turn} (heff : turnEffects w t = []) (hlog : passLog w t = [])
      (hended : ∀ r, ended r w t = 0) : TellsDone w t :=
    .idle (fun e he => absurd (heff ▸ he) List.not_mem_nil) hlog hended
  cases t with
  | call call =>
    obtain ⟨k, op⟩ := call
    have hbracket {q : TaskRef} {o : OpOut} (h : op.onTask w k = some (q, o))
        (henqueue : ∀ p enqFlags, op ≠ .enqueue p enqFlags)
        (hstopping : ∀ p runnable, op ≠ .stopping p runnable)
        (hlog : passLog w (.call ⟨k, op⟩) = []) (hended : ∀ r, ended r w (.call ⟨k, op⟩) = 0) :
        TellsDone w (.call ⟨k, op⟩) :=
      .idle (fun e he => isIdle_of_isBracket (bracket_effects h henqueue hstopping e
        (turnEffects_onTask h ▸ he))) hlog hended
    cases op with
    | enqueue p enqFlags => exact enqueue_tells p enqFlags
    | stopping p runnable => exact stopping_tells p runnable
    | dispatch cpu => exact dispatch_tells cpu
    | running p =>
      exact hbracket rfl (fun _ _ h => nomatch h) (fun _ _ h => nomatch h) rfl fun _ => rfl
    | enable p =>
      exact hbracket rfl (fun _ _ h => nomatch h) (fun _ _ h => nomatch h) rfl fun _ => rfl
    | disable p =>
      exact hbracket rfl (fun _ _ h => nomatch h) (fun _ _ h => nomatch h) rfl fun _ => rfl
    | exitTask p =>
      exact hbracket rfl (fun _ _ h => nomatch h) (fun _ _ h => nomatch h) rfl fun _ => rfl
    | cpuRelease cpu =>
      refine .idle (fun e he => ?_) rfl fun _ => rfl
      change e ∈ (if cpu ≥ 0 ∧ !flowCpuLive w cpu.toNat then [Effect.count .gateRejects 1] else [])
        at he
      split at he
      · rw [List.mem_singleton.mp he]
        rfl
      · exact absurd he List.not_mem_nil
    | setWeight p weight => exact hnone rfl rfl fun _ => rfl
    | cgroupInit cgrp => exact hnone rfl rfl fun _ => rfl
    | cgroupExit cgrp => exact hnone rfl rfl fun _ => rfl
    | cgroupMove p dst => exact hnone rfl rfl fun _ => rfl
    | cgroupSetWeight cgrp weight => exact hnone rfl rfl fun _ => rfl
  | select k cap p prevCpu =>
    refine .idle (fun e he => ?_) rfl fun _ => rfl
    obtain ⟨x, -, hx⟩ := List.mem_flatMap.mp he
    cases x with
    | gateReject =>
      rw [List.mem_singleton.mp hx]
      rfl
    | storeCursor cpu next => exact absurd hx List.not_mem_nil
  | seed rows => exact hnone rfl rfl fun _ => rfl
  | pick cpu => exact hnone rfl rfl fun _ => rfl
  | dequeue p dsq => exact hnone rfl rfl fun _ => rfl

end Done

section Runs

/-- While the daemon's list names every CPU that executes a turn once and the counter does not come to
2^64, a poll answers with what a run from boot counts. -/
theorem getMetrics_run (nrCpuIds nrNodeIds : ℕ) (topoNode : ℕ → ℕ) (s : Scheduler) (ts : List Turn)
    (elapsed : ℕ)
    (hon : core.Along (ExecutesOn s.onlineCpus) (World.boot nrCpuIds nrNodeIds topoNode) ts)
    (hroom : core.total (fun w t => amountOf c (turnEffects w t))
      (World.boot nrCpuIds nrNodeIds topoNode) ts < 2 ^ 64) :
    ((getMetrics (core.exec (World.boot nrCpuIds nrNodeIds topoNode) ts) s elapsed).counters c).toNat
      = core.total (fun w t => amountOf c (turnEffects w t))
        (World.boot nrCpuIds nrNodeIds topoNode) ts := by
  have hstart : listed (World.boot nrCpuIds nrNodeIds topoNode) s.onlineCpus c = 0 := by
    refine List.sum_eq_zero fun n hn => ?_
    obtain ⟨id, -, rfl⟩ := List.mem_map.mp hn
    unfold readStats
    split
    · rfl
    · rfl
  have hrun := run_listed (c := c) hon (by rw [hstart, Nat.zero_add]; exact hroom)
  rw [hstart, Nat.zero_add] at hrun
  rw [← hrun]
  exact getMetrics_counters (by rw [hrun]; exact hroom) elapsed

/-- From boot on, while the daemon's list names every CPU that executes a turn once and no counter
comes to 2^64, a poll answers with what was done: the kicks sent and those that preempted, the tasks
that passes moved and those they reclaimed, the segments that ended each way, and the service they
were charged. -/
theorem run_tallies (nrCpuIds nrNodeIds : ℕ) (topoNode : ℕ → ℕ) (s : Scheduler) (ts : List Turn)
    (elapsed : ℕ)
    (hon : core.Along (ExecutesOn s.onlineCpus) (World.boot nrCpuIds nrNodeIds topoNode) ts)
    (hroom : ∀ c, core.total (fun w t => amountOf c (turnEffects w t))
      (World.boot nrCpuIds nrNodeIds topoNode) ts < 2 ^ 64) :
    let w := World.boot nrCpuIds nrNodeIds topoNode
    let page := (getMetrics (core.exec w ts) s elapsed).counters
    (page .kicks).toNat = core.total (fun w t => (kicksOf (turnEffects w t)).length) w ts
      ∧ (page .preemptKicks).toNat
        = core.total (fun w t => (preemptsOf (turnEffects w t)).length) w ts
      ∧ (page .localMoves).toNat + (page .nodeMoves).toNat + (page .machineMoves).toNat
        = core.total (fun w t => (movesOf (passLog w t)).length) w ts
      ∧ (page .redReclaims).toNat
        = core.total (fun w t => (reclaimsOf (passLog w t)).length) w ts
      ∧ (page .requeues).toNat = core.total (ended true) w ts
      ∧ (page .completions).toNat = core.total (ended false) w ts
      ∧ (page .totalRuntime).toNat
        = core.total (fun w t => ((takesOf (turnEffects w t)).map UInt64.toNat).sum) w ts := by
  intro w page
  have hpage (c : Counter) :
      (page c).toNat = core.total (fun w t => amountOf c (turnEffects w t)) w ts :=
    getMetrics_run nrCpuIds nrNodeIds topoNode s ts elapsed hon (hroom c)
  refine ⟨?_, ?_, ?_, ?_, ?_, ?_, ?_⟩
  · rw [hpage, core.total_ext fun w t => (turn_tells w t).kicks]
  · rw [hpage, core.total_ext fun w t => (turn_tells w t).preempts]
  · rw [hpage, hpage, hpage, ← core.total_add, ← core.total_add,
      core.total_ext fun w t => (turn_tells w t).moves]
  · rw [hpage, core.total_ext fun w t => (turn_tells w t).reclaims]
  · rw [hpage, core.total_ext fun w t => (turn_tells w t).requeues]
  · rw [hpage, core.total_ext fun w t => (turn_tells w t).completions]
  · rw [hpage, core.total_ext fun w t => (turn_tells w t).runtime]

/-- A task of a quarter of the neutral weight runs a long burst on CPU 0 and, moved by a pass, a short
one that saves credit.  Its next wakeup finds its mask closed and rejects it.  Two more tasks wake,
and a pass of CPU 0 moves them and reclaims the first. -/
def reclaimsOne : List Turn :=
  [.call ⟨Kernel.plain 1000, .enqueue 1 0⟩, .pick 0, .call ⟨Kernel.plain 2000, .running 1⟩,
    .call ⟨Kernel.plain 102000, .stopping 1 false⟩,
    .call ⟨Kernel.plain 200000, .enable 0⟩, .call ⟨Kernel.plain 200000, .setWeight 0 32⟩,
    .call ⟨Kernel.plain 200000, .enqueue 0 0⟩, .pick 0, .call ⟨Kernel.plain 200000, .running 0⟩,
    .call ⟨Kernel.plain 100200000, .stopping 0 false⟩,
    .call ⟨Kernel.plain 130000000, .enqueue 0 0⟩, .call ⟨Kernel.plain 130000000, .dispatch 0⟩,
    .pick 0, .call ⟨Kernel.plain 130000000, .running 0⟩,
    .call ⟨Kernel.plain 130100000, .stopping 0 false⟩,
    .call ⟨Kernel.masked 140000000 false, .enqueue 0 0⟩,
    .call ⟨Kernel.plain 222000000, .enqueue 2 0⟩, .call ⟨Kernel.plain 222000000, .enqueue 1 0⟩,
    .call ⟨Kernel.plain 223000000, .dispatch 0⟩]

theorem run_tallies_reclaimsOne :
    let w := World.boot 2 1 fun _ => 0
    let page := (getMetrics (core.exec w reclaimsOne) Scheduler.pair 5).counters
    (page .kicks).toNat = core.total (fun w t => (kicksOf (turnEffects w t)).length) w reclaimsOne
      ∧ (page .preemptKicks).toNat
        = core.total (fun w t => (preemptsOf (turnEffects w t)).length) w reclaimsOne
      ∧ (page .localMoves).toNat + (page .nodeMoves).toNat + (page .machineMoves).toNat
        = core.total (fun w t => (movesOf (passLog w t)).length) w reclaimsOne
      ∧ (page .redReclaims).toNat
        = core.total (fun w t => (reclaimsOf (passLog w t)).length) w reclaimsOne
      ∧ (page .requeues).toNat = core.total (ended true) w reclaimsOne
      ∧ (page .completions).toNat = core.total (ended false) w reclaimsOne
      ∧ (page .totalRuntime).toNat
        = core.total (fun w t => ((takesOf (turnEffects w t)).map UInt64.toNat).sum) w reclaimsOne :=
  run_tallies 2 1 (fun _ => 0) Scheduler.pair reclaimsOne 5 (by decide +kernel) fun c => by
    cases c <;> decide +kernel

end Runs

end ScxFlow
