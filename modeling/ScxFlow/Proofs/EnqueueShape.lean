import ScxFlow.Proofs.Slices

/-!
# What an enqueue does

Every path of `flow_enqueue` prepares, may test the stored deadline and store a fresh one, joins one
queue with one count, and kicks.  `flowEnqueue_shape` says so once for all paths; the histories of
misses, the ledger of insertions and the admission results read it from here.
-/

namespace ScxFlow

variable {w : World} {k : Kernel} {p : TaskRef}

section Parts

/-- The effects an enqueue has before it tests the deadline. -/
def Effect.isPrep : Effect → Bool
  | .count .inserts _ => true
  | .cacheFill _ _ => true
  | _ => false

/-- The effects of the kicks. -/
def Effect.isKick : Effect → Bool
  | .clearIdle _ | .kickIdle _ | .kickPreempt _ => true
  | .count .kicks _ | .count .preemptKicks _ | .count .preemptSkipped _ => true
  | _ => false

/-- The effects before the test and after the join, which none of the ledgers read. -/
def Effect.isAside (e : Effect) : Bool := e.isPrep || e.isKick

theorem aside_of_isPrep {es : List Effect} (h : ∀ e ∈ es, e.isPrep = true) :
    ∀ e ∈ es, e.isAside = true := fun e he => by simp [Effect.isAside, h e he]

theorem aside_of_isKick {es : List Effect} (h : ∀ e ∈ es, e.isKick = true) :
    ∀ e ∈ es, e.isAside = true := fun e he => by simp [Effect.isAside, h e he]

/-- The three tiers a pass drains. -/
inductive IsTier : ℕ → Prop
  | local {cpu : ℕ} (h : cpu < flowMaxCpus) : IsTier (flowLocalDsq cpu)
  | node {node : ℕ} (h : node < flowMaxNodes) : IsTier (flowNodeDsq node)
  | machine : IsTier flowMachineDsq

theorem IsTier.lt {dsq : ℕ} (h : IsTier dsq) : dsq < flowOverflowDsq := by
  cases h with
  | «local» hc => exact (flowLocalDsq_lt hc).trans (Nat.lt_succ_self _)
  | node hn => exact (flowNodeDsq_lt hn).trans (Nat.lt_succ_self _)
  | machine => exact Nat.lt_succ_self _

/-- The one insertion of an enqueue with its count, the queue it joins and the counter. -/
inductive Joins : List Effect → ℕ → Option Counter → Prop
  | exiting (cpu : ℕ) (flags : UInt64) :
    Joins [.insert (scxLocalOn cpu) flags] (scxLocalOn cpu) none
  | gate (key flags : UInt64) :
    Joins [.count .gateRejects 1, .insertVtime flowOverflowDsq key flags] flowOverflowDsq
      (some .gateRejects)
  | red (key flags : UInt64) :
    Joins [.count .redRejects 1, .insertVtime flowOverflowDsq key flags] flowOverflowDsq
      (some .redRejects)
  | rejoin {dsq : ℕ} (h : IsTier dsq) (key : UInt64) :
    Joins [.insertVtime dsq key 0, .count .admits 1] dsq (some .admits)
  | tier {dsq : ℕ} (h : IsTier dsq) (key : UInt64) :
    Joins [.count .admits 1, .insertVtime dsq key 0] dsq (some .admits)
  | bypass (cpu : ℕ) (flags : UInt64) :
    Joins [.count .admits 1, .insert (scxLocalOn cpu) flags] (scxLocalOn cpu) (some .admits)

/-- The deadline in a task's storage, zero where there is none. -/
def deadlineOf : Option FlowTaskCtx → UInt64
  | none => 0
  | some t => t.deadline

/-- The gate of `flow_enqueue` is closed to the task. -/
def gateClosed (w : World) (ts : TaskStruct) : Bool :=
  !flowEntryOk w ts ts.selectedCpu 0 && !flowEntryOk w ts ts.taskCpu 0

/-- No live CPU takes the task. -/
def noTarget (w : World) (k : Kernel) (p : TaskRef) : Bool :=
  !flowCpuOk w (k.task p) (flowPickTarget w k p (k.task p).selectedCpu)

/-- The storage whose deadline an enqueue tests, on the paths that test it. -/
def enqueueTests (w : World) (k : Kernel) (p : TaskRef) (enqFlags : UInt64) :
    Option FlowTaskCtx :=
  if (flowEnqueueExiting w k p enqFlags).isSome || gateClosed w (k.task p) then none
  else
    match flowGet w k p with
    | none => none
    | some t => if flowTaskPinned (k.task p) || !noTarget w k p then some t else none

/-- The test of the stored deadline and the store of a fresh one, or neither. -/
inductive Stores (now : UInt64) (old new : Option FlowTaskCtx) :
    Option FlowTaskCtx → List Effect → Prop
  | untested (h : deadlineOf new = deadlineOf old) : Stores now old new none []
  | tested {t : FlowTaskCtx} (hint : UInt32)
    (h : deadlineOf new = flowPredDeadline now t.avgNs.toUInt64 t.devNs.toUInt64 hint) :
    Stores now old new (some t)
      ((if flowMissed t.deadline now then [.count .misses 1] else [])
        ++ [.storeDeadline (deadlineOf new)])

/-- One insertion with its count, then kicks. -/
def JoinsThenKicks (es : List Effect) (dsq : ℕ) (c : Option Counter) : Prop :=
  ∃ join kicks, es = join ++ kicks ∧ Joins join dsq c ∧ ∀ e ∈ kicks, e.isKick = true

/-- Some fresh deadline in range rejects its newcomer. -/
def RejectsFresh (now : UInt64) : Prop :=
  ∃ avg dev hint slice isCrit, HintOk hint ∧ SliceOk slice
    ∧ flowRedShouldReject (flowPredDeadline now avg dev hint) now avg slice isCrit = true

/-- One enqueue, part by part. -/
structure EnqueueShape (w : World) (k : Kernel) (p : TaskRef) (enqFlags : UInt64) (o : OpOut)
    (dsq : ℕ) (c : Option Counter) : Prop where
  parts : ∃ prep store rest, o.eff = prep ++ store ++ rest ∧ (∀ e ∈ prep, e.isPrep = true)
    ∧ JoinsThenKicks rest dsq c
    ∧ Stores k.now (w.taskCtx p) o.ctx (enqueueTests w k p enqFlags) store
  direct : c = none ↔ (flowEnqueueExiting w k p enqFlags).isSome = true
  gated : c = some .gateRejects → gateClosed w (k.task p) = true ∨ noTarget w k p = true
  red : c = some .redRejects → CtxOk (w.taskCtx p) → RowsOk w → RejectsFresh k.now
  kept : CtxOk (w.taskCtx p) → RowsOk w → CtxOk o.ctx

end Parts

section Kicks

theorem flowKickOneIfIdle_isKick {w : World} {ts : TaskStruct} {cpu : ℤ}
    {t : Option FlowTaskCtx} {es : List Effect} (h : flowKickOneIfIdle w ts cpu t = some es) :
    ∀ e ∈ es, e.isKick = true := by
  unfold flowKickOneIfIdle at h
  split at h
  · simp at h
  · split at h
    · simp at h
    · split at h
      · simp at h
      · split at h
        · obtain rfl := Option.some.inj h
          simp [Effect.isKick]
        · obtain rfl := Option.some.inj h
          simp [Effect.isKick]

theorem flowKickIdleAllowed_isKick (w : World) (k : Kernel) (p : TaskRef)
    (t : Option FlowTaskCtx) (sel : ℤ) :
    ∀ e ∈ flowKickIdleAllowed w k p t sel, e.isKick = true := by
  unfold flowKickIdleAllowed
  simp only
  split
  · rename_i h
    exact flowKickOneIfIdle_isKick h
  · split
    · rename_i h
      exact flowKickOneIfIdle_isKick h
    · rcases h : flowKickOneIfIdle w (k.task p) (k.cpumaskFirst p) t with _ | es
      · simp
      · simpa using flowKickOneIfIdle_isKick h

theorem flowEnqueueKick_isKick (w : World) (k : Kernel) (p : TaskRef) (t : FlowTaskCtx)
    (e : FlowEnqueueTail) : ∀ x ∈ flowEnqueueKick w k p t e, x.isKick = true := by
  unfold flowEnqueueKick flowEnqueueKickBusy
  simp only
  repeat' split
  all_goals simp [Effect.isKick]

theorem flowTaskHintAcquire_isPrep (w : World) (ts : TaskStruct) :
    ∀ e ∈ (flowTaskHintAcquire w ts).2, e.isPrep = true := by
  unfold flowTaskHintAcquire
  split
  · simp
  · simp only
    split
    · simp [Effect.isPrep]
    · simp

theorem flowTaskHintWeight_isPrep (w : World) (k : Kernel) (p : TaskRef) :
    ∀ e ∈ (flowTaskHintWeight w k p).2, e.isPrep = true := by
  rcases flowTaskHintWeight_cases w k p with ⟨-, id, -, h⟩ | h
  · simp [h]
  · rw [h]
    exact flowTaskHintAcquire_isPrep w (k.task p)

theorem flowEnqueueHint_isPrep (w : World) (k : Kernel) (p : TaskRef) (t : FlowTaskCtx)
    (enqFlags : UInt64) : ∀ e ∈ (flowEnqueueHint w k p t enqFlags).2, e.isPrep = true := by
  unfold flowEnqueueHint
  split
  · simp
  · exact flowTaskHintWeight_isPrep w k p

theorem flowCpuOk_iff {w : World} {ts : TaskStruct} {cpu : ℤ} :
    flowCpuOk w ts cpu = true ↔
      0 ≤ cpu ∧ cpu.toNat < w.nrCpuIds ∧ cpu.toNat < flowMaxCpus ∧ ts.cpusPtr cpu.toNat = true := by
  unfold flowCpuOk
  split_ifs <;> simp_all

theorem flowTierInsertHint_tier {w : World} {cpu : ℤ} (hm : cpu.toNat < flowMaxCpus)
    (vtime now : UInt64) (localQ nodeQ : ℤ) :
    ∃ dsq, IsTier dsq ∧ flowTierInsertHint w cpu vtime now localQ nodeQ = .insertVtime dsq vtime 0 := by
  unfold flowTierInsertHint
  split
  · exact ⟨_, .local hm, rfl⟩
  · split
    · simp only
      split
      · rename_i h
        exact ⟨_, .node h.1, rfl⟩
      · exact ⟨_, .machine, rfl⟩
    · exact ⟨_, .machine, rfl⟩

theorem flowTierInsert_tier {w : World} {cpu : ℤ} (hm : cpu.toNat < flowMaxCpus)
    (vtime now : UInt64) :
    ∃ dsq, IsTier dsq ∧ flowTierInsert w cpu vtime now = .insertVtime dsq vtime 0 := by
  unfold flowTierInsert
  split
  · exact flowTierInsertHint_tier hm vtime now _ _
  · exact flowTierInsertHint_tier hm vtime now _ _

end Kicks

section FairTime

theorem flowEnqueueFresh_keeps (o : FlowOpenTail) :
    (flowEnqueueFresh o).1.deadline = o.tctx.deadline
      ∧ (flowEnqueueFresh o).1.avgNs = o.tctx.avgNs := by
  unfold flowEnqueueFresh flowTakeSleep
  simp only
  split
  · exact ⟨rfl, rfl⟩
  · exact ⟨rfl, rfl⟩

theorem flowEnqueueOpen_keeps (o : FlowOpenTail) :
    (flowEnqueueOpen o).1.deadline = o.tctx.deadline
      ∧ (flowEnqueueOpen o).1.avgNs = o.tctx.avgNs := by
  unfold flowEnqueueOpen
  split
  · exact flowEnqueueFresh_keeps o
  · exact ⟨rfl, rfl⟩

theorem flowPinnedFair_keeps (o : FlowOpenTail) (miss : Bool) :
    (flowPinnedFair o miss).1.deadline = o.tctx.deadline
      ∧ (flowPinnedFair o miss).1.avgNs = o.tctx.avgNs := by
  unfold flowPinnedFair
  split
  · exact ⟨rfl, rfl⟩
  · split
    · exact flowEnqueueFresh_keeps o
    · exact ⟨rfl, rfl⟩

theorem flowClampToMin_eq (w : World) (t : FlowTaskCtx) (cpu : ℕ) :
    flowClampToMin w t cpu = { t with vruntime := (flowClampToMin w t cpu).vruntime } := by
  unfold flowClampToMin
  simp only
  split_ifs <;> rfl

end FairTime

section Joins

theorem flowEnqueueReject_joins {r : FlowRejectTail} {es : List Effect}
    (h : flowEnqueueReject w k p r = some es) :
    JoinsThenKicks es flowOverflowDsq (some .redRejects)
      ∧ flowRedShouldReject r.deadline r.now r.avg r.slice r.isLat = true := by
  unfold flowEnqueueReject at h
  split at h
  · simp at h
  · rename_i hred
    obtain rfl := Option.some.inj h
    exact ⟨⟨_, _, rfl, .red _ _, flowKickIdleAllowed_isKick w k p _ _⟩, by simpa using hred⟩

/-- The state `t` rejects at the price of its slice, or of the slice before the clamp. -/
inductive RejectsAt (t : FlowTaskCtx) (out : FlowOpenOut) (now : UInt64) : Prop
  | slice (isCrit : Bool)
    (h : flowRedShouldReject t.deadline now t.avgNs.toUInt64 t.sliceNs isCrit = true)
  | preSlice (isCrit : Bool)
    (h : flowRedShouldReject t.deadline now t.avgNs.toUInt64 out.preSlice isCrit = true)

theorem RejectsAt.of_price {t : FlowTaskCtx} {out : FlowOpenOut} {now : UInt64} {b isCrit : Bool}
    (h : flowRedShouldReject t.deadline now t.avgNs.toUInt64
      (if b then out.preSlice else t.sliceNs) isCrit = true) : RejectsAt t out now := by
  cases b
  · exact .slice isCrit h
  · exact .preSlice isCrit h

theorem rejoin_joins {cpu : ℤ} (hm : cpu.toNat < flowMaxCpus) (vtime now : UInt64)
    (t : Option FlowTaskCtx) (sel : ℤ) :
    ∃ dsq, JoinsThenKicks ([flowTierInsert w cpu vtime now, .count .admits 1]
      ++ flowKickIdleAllowed w k p t sel) dsq (some .admits) := by
  obtain ⟨dsq, hd, ht⟩ := flowTierInsert_tier (w := w) hm vtime now
  rw [ht]
  exact ⟨dsq, _, _, rfl, .rejoin hd vtime, flowKickIdleAllowed_isKick w k p t sel⟩

theorem flowEnqueueRejoin_joins {m : FlowMissTail} (hm : m.cpu.toNat < flowMaxCpus) :
    ∃ rest dsq c, (flowEnqueueRejoin w k p m).eff
        = [.count .misses 1, .storeDeadline (flowMissCtx m).deadline] ++ rest
      ∧ JoinsThenKicks rest dsq (some c) ∧ c ≠ .gateRejects
      ∧ (c = .redRejects → ∃ isCrit, flowRedShouldReject (flowMissCtx m).deadline m.now m.avg
        (flowMissCtx m).sliceNs isCrit = true) := by
  unfold flowEnqueueRejoin
  simp only
  split
  · rename_i es hr
    obtain ⟨hj, hred⟩ := flowEnqueueReject_joins hr
    exact ⟨es, _, _, rfl, hj, by simp, fun _ => ⟨_, hred⟩⟩
  · obtain ⟨dsq, hj⟩ := rejoin_joins (w := w) (k := k) (p := p) hm _ m.now _ m.sel
    exact ⟨_, dsq, _, rfl, hj, by simp, by simp⟩

theorem flowPinnedJoin_joins (t : FlowTaskCtx) (out : FlowOpenOut) (pc : ℤ) (enqFlags : UInt64) :
    ∃ dsq c, JoinsThenKicks (flowPinnedJoin w k p t out pc enqFlags).eff dsq (some c)
      ∧ (c = .gateRejects → flowCpuOk w (k.task p) pc = false)
      ∧ (c = .redRejects → RejectsAt t out k.now) := by
  unfold flowPinnedJoin
  simp only
  split
  · rename_i es hr
    obtain ⟨hj, hred⟩ := flowEnqueueReject_joins hr
    exact ⟨_, _, hj, by simp, fun _ => .of_price hred⟩
  · split
    · rename_i hok
      obtain ⟨dsq, hj⟩ := rejoin_joins (w := w) (k := k) (p := p) (flowCpuOk_iff.mp hok).2.2.1
        out.vtime k.now (some t) (k.task p).selectedCpu
      exact ⟨dsq, _, hj, by simp, by simp⟩
    · rename_i hok
      refine ⟨_, _, ⟨_, _, rfl, .gate _ _, flowKickIdleAllowed_isKick w k p _ _⟩, fun _ => ?_,
        by simp⟩
      simpa using hok

theorem flowEnqueuePlace_cases {e : FlowEnqueueTail} (hm : e.cpu.toNat < flowMaxCpus) :
    flowEnqueuePlace w e = (true, [.insert (scxLocalOn e.cpu.toNat) e.enqFlags, .clearIdle e.cpu,
        .kickIdle e.cpu, .count .kicks 1])
      ∨ ∃ dsq, IsTier dsq ∧ flowEnqueuePlace w e = (false, [.insertVtime dsq e.vtime 0]) := by
  obtain ⟨dsq, hd, ht⟩ := flowTierInsert_tier (w := w) hm e.vtime e.now
  obtain ⟨dsq', hd', ht'⟩ := flowTierInsertHint_tier (w := w) hm e.vtime e.now
    (nrQueued w (flowLocalDsq e.cpu.toNat)) (nodeQueued w e.cpu.toNat)
  unfold flowEnqueuePlace
  simp only [ht, ht']
  split_ifs
  · exact Or.inl rfl
  · exact Or.inr ⟨dsq', hd', rfl⟩
  · exact Or.inr ⟨dsq, hd, rfl⟩

theorem flowEnqueuePlace_joins {e : FlowEnqueueTail} (hm : e.cpu.toNat < flowMaxCpus)
    (t : FlowTaskCtx) :
    ∃ dsq, JoinsThenKicks ([.count .admits 1] ++ (flowEnqueuePlace w e).2
      ++ if (flowEnqueuePlace w e).1 then [] else flowEnqueueKick w k p t e) dsq (some .admits) := by
  rcases flowEnqueuePlace_cases (w := w) hm with h | ⟨dsq, hd, h⟩
  · rw [h]
    refine ⟨_, [.count .admits 1, .insert (scxLocalOn e.cpu.toNat) e.enqFlags], _, rfl,
      .bypass _ _, ?_⟩
    simp [Effect.isKick]
  · rw [h]
    exact ⟨dsq, _, _, rfl, .tier hd _, by simpa using flowEnqueueKick_isKick w k p t e⟩

theorem flowOpenJoin_joins {cpu : ℤ} (hm : cpu.toNat < flowMaxCpus) (t : FlowTaskCtx)
    (out : FlowOpenOut) (enqFlags : UInt64) :
    ∃ dsq c, JoinsThenKicks (flowOpenJoin w k p t out cpu enqFlags) dsq (some c)
      ∧ c ≠ .gateRejects ∧ (c = .redRejects → RejectsAt t out k.now) := by
  unfold flowOpenJoin
  simp only
  split
  · rename_i es hr
    obtain ⟨hj, hred⟩ := flowEnqueueReject_joins hr
    exact ⟨_, _, hj, by simp, fun _ => .of_price hred⟩
  · obtain ⟨dsq, hj⟩ := flowEnqueuePlace_joins (w := w) (k := k) (p := p)
      (e := ⟨cpu, out.vtime, k.now, enqFlags, out.sleepNs, isReenq enqFlags,
        flowEligible t.vruntime (flowCpuMin w cpu.toNat) t.vlag⟩) hm t
    exact ⟨dsq, _, hj, by simp, by simp⟩

end Joins

section Paths

theorem flowPinnedMissed_eq (t : FlowTaskCtx) (now : UInt64) :
    flowPinnedMissed t now = flowMissed t.deadline now := by
  unfold flowPinnedMissed
  by_cases h : t.deadline = 0
  · simp [h, flowMissed]
  · simp [h]

theorem flowCountMiss_eq (t : FlowTaskCtx) :
    flowCountMiss t = { t with misses := (flowCountMiss t).misses } := by
  unfold flowCountMiss
  split_ifs <;> rfl

/-- The parts of a tested path, whose fresh deadline the predictor makes of the stored history. -/
structure TestedShape (w : World) (k : Kernel) (p : TaskRef) (t : FlowTaskCtx) (o : OpOut)
    (dsq : ℕ) (c : Counter) : Prop where
  parts : ∃ prep rest, o.eff = prep ++ ((if flowMissed t.deadline k.now then [.count .misses 1]
      else []) ++ [.storeDeadline (deadlineOf o.ctx)]) ++ rest
    ∧ (∀ e ∈ prep, e.isPrep = true) ∧ JoinsThenKicks rest dsq (some c)
  stored : ∃ hint, deadlineOf o.ctx
    = flowPredDeadline k.now t.avgNs.toUInt64 t.devNs.toUInt64 hint
  gated : c = .gateRejects → noTarget w k p = true
  red : c = .redRejects → TaskOk t → RowsOk w → RejectsFresh k.now
  kept : TaskOk t → RowsOk w → CtxOk o.ctx

theorem RejectsAt.fresh {t : FlowTaskCtx} {out : FlowOpenOut} {now dev : UInt64} {hint : UInt32}
    (h : RejectsAt t out now) (hd : t.deadline = flowPredDeadline now t.avgNs.toUInt64 dev hint)
    (hh : HintOk hint) (hs : SliceOk t.sliceNs) (hp : SliceOk out.preSlice) :
    RejectsFresh now := by
  cases h with
  | slice isCrit h =>
    rw [hd] at h
    exact ⟨_, dev, hint, _, isCrit, hh, hs, h⟩
  | preSlice isCrit h =>
    rw [hd] at h
    exact ⟨_, dev, hint, _, isCrit, hh, hp, h⟩

theorem flowPinnedJoin_ctx {t : FlowTaskCtx} (out : FlowOpenOut) (pc : ℤ) (enqFlags : UInt64) :
    deadlineOf (flowPinnedJoin w k p t out pc enqFlags).ctx = t.deadline
      ∧ (TaskOk t → CtxOk (flowPinnedJoin w k p t out pc enqFlags).ctx) := by
  unfold flowPinnedJoin
  simp only
  split
  · exact ⟨rfl, ctxOk_some.mpr⟩
  · split
    · exact ⟨rfl, ctxOk_some.mpr⟩
    · exact ⟨rfl, fun h => ctxOk_some.mpr ⟨h.hint, h.slice⟩⟩

theorem flowPinnedCtx_spec (t : FlowTaskCtx) (now : UInt64) :
    (flowPinnedCtx t now).deadline
        = flowPredDeadline now t.avgNs.toUInt64 t.devNs.toUInt64 t.hintUs
      ∧ (flowPinnedCtx t now).avgNs = t.avgNs ∧ (TaskOk t → TaskOk (flowPinnedCtx t now)) := by
  unfold flowPinnedCtx
  simp only
  split
  · rw [flowCountMiss_eq]
    exact ⟨rfl, rfl, fun h => ⟨h.hint, h.slice⟩⟩
  · exact ⟨rfl, rfl, fun h => ⟨h.hint, h.slice⟩⟩

theorem flowPinnedWait_eq (t : FlowTaskCtx) (pc : ℤ) (enqFlags : UInt64) :
    ∃ f : FlowTaskCtx × FlowOpenOut, f.1.deadline = (flowPinnedCtx t k.now).deadline
      ∧ f.1.avgNs = t.avgNs ∧ (TaskOk t → TaskOk f.1 ∧ SliceOk f.2.preSlice)
      ∧ flowPinnedWait w k p t pc enqFlags = ⟨(flowPinnedJoin w k p f.1 f.2 pc enqFlags).ctx,
        (if flowMissed t.deadline k.now then [.count .misses 1] else [])
          ++ [.storeDeadline (flowPinnedCtx t k.now).deadline]
          ++ (flowPinnedJoin w k p f.1 f.2 pc enqFlags).eff⟩ := by
  obtain ⟨-, ha, hok⟩ := flowPinnedCtx_spec t k.now
  unfold flowPinnedWait
  simp only [flowPinnedMissed_eq]
  refine ⟨_, (flowPinnedFair_keeps _ _).1, (flowPinnedFair_keeps _ _).2.trans ha, fun h => ?_, rfl⟩
  exact flowPinnedFair_ok (hok h) _

theorem flowPinnedWait_shape (t : FlowTaskCtx) (enqFlags : UInt64) :
    ∃ dsq c, TestedShape w k p t
      (flowPinnedWait w k p t (flowPickTarget w k p (k.task p).selectedCpu) enqFlags) dsq c := by
  obtain ⟨f, hf, ha, hok, heq⟩ := flowPinnedWait_eq (w := w) (k := k) (p := p) t
    (flowPickTarget w k p (k.task p).selectedCpu) enqFlags
  obtain ⟨dsq, c, hj, hg, hr⟩ := flowPinnedJoin_joins (w := w) (k := k) (p := p) f.1 f.2
    (flowPickTarget w k p (k.task p).selectedCpu) enqFlags
  obtain ⟨hd, hkept⟩ := flowPinnedJoin_ctx (w := w) (k := k) (p := p) (t := f.1) f.2
    (flowPickTarget w k p (k.task p).selectedCpu) enqFlags
  have hdl := (flowPinnedCtx_spec t k.now).1
  rw [heq]
  refine ⟨dsq, c, ⟨⟨[], _, ?_, by simp, hj⟩, ⟨t.hintUs, ?_⟩, fun h => ?_, fun h ht _ => ?_,
    fun ht _ => hkept (hok ht).1⟩⟩
  · simp only [hd, hf, List.nil_append]
  · rw [hd, hf, hdl]
  · simpa [noTarget] using hg h
  · have hfresh : f.1.deadline
        = flowPredDeadline k.now f.1.avgNs.toUInt64 t.devNs.toUInt64 t.hintUs := by
      rw [hf, hdl, ha]
    exact (hr h).fresh hfresh ht.hint (hok ht).1.slice (hok ht).2

theorem TestedShape.of_history {t t' : FlowTaskCtx} {o : OpOut} {dsq : ℕ} {c : Counter}
    {prep : List Effect} (h : TestedShape w k p t' o dsq c) (hd : t'.deadline = t.deadline)
    (ha : t'.avgNs = t.avgNs) (hv : t'.devNs = t.devNs) (hok : TaskOk t → RowsOk w → TaskOk t')
    (hp : ∀ e ∈ prep, e.isPrep = true) : TestedShape w k p t ⟨o.ctx, prep ++ o.eff⟩ dsq c := by
  obtain ⟨⟨prep', rest, heff, hp', hj⟩, ⟨hint, hs⟩, hg, hr, hk⟩ := h
  refine ⟨⟨prep ++ prep', rest, ?_, ?_, hj⟩, ⟨hint, ?_⟩, hg, fun hc ht hw => hr hc (hok ht hw) hw,
    fun ht hw => hk (hok ht hw) hw⟩
  · simp only [heff, hd, List.append_assoc]
  · intro e he
    rcases List.mem_append.mp he with he | he
    · exact hp e he
    · exact hp' e he
  · rw [← ha, ← hv]
    exact hs

theorem flowEnqueuePinned_shape (t : FlowTaskCtx) (enqFlags : UInt64) :
    ∃ dsq c, TestedShape w k p t (flowEnqueuePinned w k p t enqFlags) dsq c := by
  unfold flowEnqueuePinned
  simp only
  have hp := flowEnqueueHint_isPrep w k p t enqFlags
  have hh := fun (ht : TaskOk t) (hw : RowsOk w) => hw.enqueueHint (k := k) (p := p) ht enqFlags
  split
  · obtain ⟨dsq, c, h⟩ := flowPinnedWait_shape (w := w) (k := k) (p := p)
      (flowClampToMin w { t with
        hintUs := (flowEnqueueHint w k p t enqFlags).1.1
        hintW := (flowEnqueueHint w k p t enqFlags).1.2 }
        (flowPickTarget w k p (k.task p).selectedCpu).toNat) enqFlags
    rw [flowClampToMin_eq] at h ⊢
    exact ⟨dsq, c, h.of_history rfl rfl rfl (fun ht hw => ⟨hh ht hw, ht.slice⟩) hp⟩
  · obtain ⟨dsq, c, h⟩ := flowPinnedWait_shape (w := w) (k := k) (p := p)
      { t with
        hintUs := (flowEnqueueHint w k p t enqFlags).1.1
        hintW := (flowEnqueueHint w k p t enqFlags).1.2 } enqFlags
    exact ⟨dsq, c, h.of_history rfl rfl rfl (fun ht hw => ⟨hh ht hw, ht.slice⟩) hp⟩

theorem flowEnqueueAdmit_shape {t : FlowTaskCtx} {cpu : ℤ} (hm : cpu.toNat < flowMaxCpus)
    (hmiss : flowMissed t.deadline k.now = false) (enqFlags : UInt64) :
    ∃ dsq c, TestedShape w k p t (flowEnqueueAdmit w k p t cpu enqFlags) dsq c := by
  unfold flowEnqueueAdmit
  simp only
  generalize hf : flowEnqueueOpen _ = f
  have hd : f.1.deadline = flowPredDeadline k.now t.avgNs.toUInt64 t.devNs.toUInt64 t.hintUs := by
    rw [← hf, (flowEnqueueOpen_keeps _).1]
  have ha : f.1.avgNs = t.avgNs := by rw [← hf, (flowEnqueueOpen_keeps _).2]
  have hok : TaskOk t → TaskOk f.1 ∧ SliceOk f.2.preSlice := fun ht => by
    rw [← hf]
    exact flowEnqueueOpen_ok ⟨ht.hint, ht.slice⟩
  obtain ⟨dsq, c, hj, hg, hr⟩ := flowOpenJoin_joins (w := w) (k := k) (p := p) hm f.1 f.2 enqFlags
  refine ⟨dsq, c, ⟨⟨[], _, ?_, by simp, hj⟩, ⟨t.hintUs, hd⟩, fun h => absurd h hg, fun h ht _ => ?_,
    fun ht _ => ctxOk_some.mpr (hok ht).1⟩⟩
  · simp [deadlineOf, hd, hmiss]
  · have hfresh : f.1.deadline
        = flowPredDeadline k.now f.1.avgNs.toUInt64 t.devNs.toUInt64 t.hintUs := by
      rw [hd, ha]
    exact (hr h).fresh hfresh ht.hint (hok ht).1.slice (hok ht).2

theorem flowEnqueueRejoin_shape {m : FlowMissTail} (hm : m.cpu.toNat < flowMaxCpus)
    (hnow : m.now = k.now) (ha : m.avg = m.tctx.avgNs.toUInt64)
    (hv : m.dev = m.tctx.devNs.toUInt64) (hh : m.hint = m.tctx.hintUs)
    (hmiss : flowMissed m.tctx.deadline k.now = true) :
    ∃ dsq c, TestedShape w k p m.tctx (flowEnqueueRejoin w k p m) dsq c := by
  obtain ⟨rest, dsq, c, heff, hj, hg, hr⟩ :=
    flowEnqueueRejoin_joins (w := w) (k := k) (p := p) hm
  have hctx : (flowEnqueueRejoin w k p m).ctx = some (flowMissCtx m) := rfl
  have hdl : (flowMissCtx m).deadline = flowPredDeadline k.now m.tctx.avgNs.toUInt64
      m.tctx.devNs.toUInt64 m.tctx.hintUs := by
    rw [← hnow, ← ha, ← hv, ← hh]
    rfl
  refine ⟨dsq, c, ⟨⟨[], rest, ?_, by simp, hj⟩, ⟨m.tctx.hintUs, ?_⟩, fun h => absurd h hg,
    fun h ht _ => ?_, fun ht _ => ?_⟩⟩
  · rw [heff, hctx]
    simp [hmiss, deadlineOf]
  · rw [hctx]
    exact hdl
  · obtain ⟨isCrit, hred⟩ := hr h
    rw [hdl, hnow, ha] at hred
    exact ⟨_, _, _, _, isCrit, ht.hint, (flowMissCtx_ok ht).slice, hred⟩
  · rw [hctx]
    exact ctxOk_some.mpr (flowMissCtx_ok ht)

theorem flowEnqueueMiss_eq (m : FlowMissTail) :
    flowEnqueueMiss w k p m
      = if flowMissed m.tctx.deadline m.now then some (flowEnqueueRejoin w k p m) else none := by
  unfold flowEnqueueMiss
  by_cases h0 : m.tctx.deadline = 0
  · rw [if_pos h0, h0, flowMissed_zero]
    rfl
  · rw [if_neg h0]
    rcases flowMissed m.tctx.deadline m.now with _ | _ <;> rfl

theorem missOrAdmit_shape (t : FlowTaskCtx) {cpu : ℤ} (hm : cpu.toNat < flowMaxCpus) (sel : ℤ)
    (enqFlags : UInt64) :
    ∃ dsq c, TestedShape w k p t ((flowEnqueueMiss w k p ⟨t, cpu, sel, k.now, enqFlags, t.hintUs,
      t.hintW, t.avgNs.toUInt64, t.devNs.toUInt64⟩).getD (flowEnqueueAdmit w k p t cpu enqFlags))
      dsq c := by
  rw [flowEnqueueMiss_eq]
  simp only
  rcases hmiss : flowMissed t.deadline k.now with _ | _
  · exact flowEnqueueAdmit_shape hm hmiss enqFlags
  · exact flowEnqueueRejoin_shape (m := ⟨t, cpu, sel, k.now, enqFlags, t.hintUs, t.hintW,
      t.avgNs.toUInt64, t.devNs.toUInt64⟩) hm rfl rfl rfl rfl hmiss

theorem flowEnqueueLive_shape {t : FlowTaskCtx} {cpu : ℤ} (hm : cpu.toNat < flowMaxCpus)
    (enqFlags : UInt64) :
    ∃ dsq c, TestedShape w k p t (flowEnqueueLive w k p t cpu enqFlags) dsq c := by
  unfold flowEnqueueLive
  simp only
  have hp : ∀ e ∈ (if t.deadline = 0 ∧ t.waitAt = 0 then [Effect.count .inserts 1] else [])
      ++ (flowEnqueueHint w k p t enqFlags).2, e.isPrep = true := by
    intro e he
    rcases List.mem_append.mp he with he | he
    · split at he
      · simp only [List.mem_singleton] at he
        rw [he]
        rfl
      · simp at he
    · exact flowEnqueueHint_isPrep w k p t enqFlags e he
  rw [flowClampToMin_eq]
  obtain ⟨dsq, c, h⟩ := missOrAdmit_shape (w := w) (k := k) (p := p) { t with
    vruntime := _
    hintUs := (flowEnqueueHint w k p t enqFlags).1.1
    hintW := (flowEnqueueHint w k p t enqFlags).1.2 } hm (k.task p).selectedCpu enqFlags
  refine ⟨dsq, c, h.of_history rfl rfl rfl (fun ht hw => ⟨?_, ht.slice⟩) hp⟩
  exact hw.enqueueHint ht enqFlags

end Paths

theorem flowEnqueueExiting_joins {enqFlags : UInt64} {es : List Effect}
    (h : flowEnqueueExiting w k p enqFlags = some es) :
    JoinsThenKicks es (scxLocalOn (k.task p).taskCpu.toNat) none := by
  unfold flowEnqueueExiting at h
  simp only at h
  split at h
  · obtain rfl := Option.some.inj h
    refine ⟨[_], _, rfl, .exiting _ _, ?_⟩
    split
    · simp [Effect.isKick]
    · simp
  · simp at h

/-- A task at a closed gate keeps its state but for the stamp of its wait. -/
theorem flowEnqueueGateMiss_ctx (enqFlags : UInt64) : (flowEnqueueGateMiss w k p enqFlags).ctx
    = (w.taskCtx p).map fun t => { t with waitAt := k.now } := by
  unfold flowEnqueueGateMiss
  rcases w.taskCtx p with _ | t
  · rfl
  · rfl

/-- It is counted and joins the reject queue. -/
theorem flowEnqueueGateMiss_eff (w : World) (k : Kernel) (p : TaskRef) (enqFlags : UInt64) :
    ∃ val, (flowEnqueueGateMiss w k p enqFlags).eff
      = [.count .gateRejects 1, flowOverflowInsert enqFlags val] ++ flowKickIdleAllowed w k p
        (flowEnqueueGateMiss w k p enqFlags).ctx (k.task p).selectedCpu := by
  unfold flowEnqueueGateMiss
  rcases w.taskCtx p with _ | t
  · exact ⟨_, rfl⟩
  · exact ⟨_, rfl⟩

theorem flowEnqueueGateMiss_joins (enqFlags : UInt64) :
    JoinsThenKicks (flowEnqueueGateMiss w k p enqFlags).eff flowOverflowDsq (some .gateRejects)
      ∧ deadlineOf (flowEnqueueGateMiss w k p enqFlags).ctx = deadlineOf (w.taskCtx p)
      ∧ (CtxOk (w.taskCtx p) → CtxOk (flowEnqueueGateMiss w k p enqFlags).ctx) := by
  obtain ⟨val, heff⟩ := flowEnqueueGateMiss_eff w k p enqFlags
  rw [heff, flowEnqueueGateMiss_ctx]
  refine ⟨⟨_, _, rfl, .gate _ _, flowKickIdleAllowed_isKick w k p _ _⟩, ?_, fun hc t' ht' => ?_⟩
  · rcases w.taskCtx p with _ | t
    · rfl
    · rfl
  · obtain ⟨t, ht, rfl⟩ := Option.map_eq_some_iff.mp ht'
    exact ⟨(hc t ht).hint, (hc t ht).slice⟩

theorem flowEnqueueNoState_ctx (enqFlags : UInt64) :
    (flowEnqueueNoState w k p enqFlags).ctx = none := by
  unfold flowEnqueueNoState
  simp only
  split
  · rfl
  · rfl

theorem flowEnqueueNoState_shape (enqFlags : UInt64) :
    ∃ prep rest dsq c, (flowEnqueueNoState w k p enqFlags).eff = prep ++ rest
      ∧ (∀ e ∈ prep, e.isPrep = true) ∧ JoinsThenKicks rest dsq (some c)
      ∧ (c = .gateRejects → noTarget w k p = true) ∧ c ≠ .redRejects := by
  have hp := flowTaskHintWeight_isPrep w k p
  unfold flowEnqueueNoState
  simp only
  split
  · rename_i hok
    obtain ⟨dsq, hj⟩ := rejoin_joins (w := w) (k := k) (p := p) (flowCpuOk_iff.mp hok).2.2.1
      (flowFallbackDeadline k.now (flowTaskHintWeight w k p).1.1) k.now none
      (k.task p).selectedCpu
    exact ⟨_, _, dsq, _, List.append_assoc _ _ _, hp, hj, by simp, by simp⟩
  · rename_i hok
    exact ⟨_, _, _, _, List.append_assoc _ _ _, hp,
      ⟨_, _, rfl, .gate _ _, flowKickIdleAllowed_isKick w k p _ _⟩, fun _ => by simp [noTarget, hok],
      by simp⟩

theorem flowEnqueueHomeless_joins (t : FlowTaskCtx) (enqFlags : UInt64) :
    JoinsThenKicks (flowEnqueueHomeless w k p t enqFlags).eff flowOverflowDsq
        (some .gateRejects)
      ∧ deadlineOf (flowEnqueueHomeless w k p t enqFlags).ctx = t.deadline :=
  ⟨⟨_, _, rfl, .gate _ _, flowKickIdleAllowed_isKick w k p _ _⟩, rfl⟩

theorem deadlineOf_flowGet {t : FlowTaskCtx} (h : flowGet w k p = some t) :
    t.deadline = deadlineOf (w.taskCtx p) := by
  rcases flowGet_some h with hs | ⟨hs, rfl⟩
  · rw [hs]
    rfl
  · rw [hs]
    rfl

theorem enqueueTests_of_open {enqFlags : UInt64} (hx : flowEnqueueExiting w k p enqFlags = none)
    (hg : gateClosed w (k.task p) = false) :
    enqueueTests w k p enqFlags = match flowGet w k p with
      | none => none
      | some t => if flowTaskPinned (k.task p) || !noTarget w k p then some t else none := by
  simp [enqueueTests, hx, hg]

/-- Where a deadline is tested, the gate is open, and the task has storage and is pinned or has a
live CPU. -/
theorem enqueueTests_eq_some {t : FlowTaskCtx} {enqFlags : UInt64}
    (h : enqueueTests w k p enqFlags = some t) :
    flowEnqueueExiting w k p enqFlags = none ∧ gateClosed w (k.task p) = false
      ∧ flowGet w k p = some t ∧ (¬flowTaskPinned (k.task p) = true →
        flowCpuOk w (k.task p) (flowPickTarget w k p (k.task p).selectedCpu) = true) := by
  rcases hx : flowEnqueueExiting w k p enqFlags with _ | es
  swap
  · simp [enqueueTests, hx] at h
  rcases hgate : gateClosed w (k.task p) with _ | _
  swap
  · simp [enqueueTests, hgate] at h
  rw [enqueueTests_of_open hx hgate] at h
  rcases hget : flowGet w k p with _ | t₀
  · rw [hget] at h
    cases h
  rw [hget] at h
  simp only at h
  split at h
  · rename_i hto
    exact ⟨rfl, rfl, h, fun hpin => by simpa [hpin, noTarget] using hto⟩
  · cases h

theorem TestedShape.enqueueShape {t : FlowTaskCtx} {o : OpOut} {dsq : ℕ} {c : Counter}
    {enqFlags : UInt64} (h : TestedShape w k p (flowEnqueueDefaults t) o dsq c)
    (hx : flowEnqueueExiting w k p enqFlags = none) (hget : flowGet w k p = some t)
    (ht : enqueueTests w k p enqFlags = some t) :
    EnqueueShape w k p enqFlags o dsq (some c) := by
  obtain ⟨⟨prep, rest, heff, hp, hj⟩, ⟨hint, hs⟩, hg, hr, hk⟩ := h
  have hok : CtxOk (w.taskCtx p) → TaskOk (flowEnqueueDefaults t) := fun hc =>
    flowEnqueueDefaults_ok (flowGet_ok hc hget)
  refine ⟨⟨prep, _, rest, heff, hp, hj, ?_⟩, by simp [hx], fun h => Or.inr (hg (by simpa using h)),
    fun h hc hw => hr (by simpa using h) (hok hc) hw, fun hc hw => hk (hok hc) hw⟩
  rw [ht]
  exact .tested hint hs

section Shapes

variable {enqFlags : UInt64}

theorem EnqueueShape.exiting {es : List Effect} (hx : flowEnqueueExiting w k p enqFlags = some es) :
    ∃ dsq c, EnqueueShape w k p enqFlags ⟨w.taskCtx p, es⟩ dsq c := by
  have hj := flowEnqueueExiting_joins hx
  have ht : enqueueTests w k p enqFlags = none := by simp [enqueueTests, hx]
  refine ⟨_, none, ⟨⟨[], [], es, rfl, by simp, hj, ?_⟩, by simp [hx], by simp, by simp,
    fun hc _ => hc⟩⟩
  rw [ht]
  exact .untested rfl

theorem EnqueueShape.gateMiss (hx : flowEnqueueExiting w k p enqFlags = none)
    (hgate : gateClosed w (k.task p) = true) :
    ∃ dsq c, EnqueueShape w k p enqFlags (flowEnqueueGateMiss w k p enqFlags) dsq c := by
  have ht : enqueueTests w k p enqFlags = none := by simp [enqueueTests, hgate]
  obtain ⟨hj, hd, hok⟩ := flowEnqueueGateMiss_joins (w := w) (k := k) (p := p) enqFlags
  refine ⟨_, _, ⟨⟨[], [], (flowEnqueueGateMiss w k p enqFlags).eff, rfl, by simp, hj, ?_⟩,
    by simp [hx], fun _ => Or.inl hgate, by simp, fun hc _ => hok hc⟩⟩
  rw [ht]
  exact .untested hd

theorem EnqueueShape.noState (hx : flowEnqueueExiting w k p enqFlags = none)
    (hgate : gateClosed w (k.task p) = false) (hget : flowGet w k p = none) :
    ∃ dsq c, EnqueueShape w k p enqFlags (flowEnqueueNoState w k p enqFlags) dsq c := by
  have ht := enqueueTests_of_open hx hgate
  obtain ⟨prep, rest, dsq, c, heff, hp, hj, hg, hr⟩ :=
    flowEnqueueNoState_shape (w := w) (k := k) (p := p) enqFlags
  refine ⟨dsq, some c, ⟨⟨prep, [], rest, by simp [heff], hp, hj, ?_⟩, by simp [hx],
    fun h => Or.inr (hg (by simpa using h)), fun h => absurd (by simpa using h) hr,
    fun _ _ => ?_⟩⟩
  · rw [ht, hget]
    refine .untested ?_
    rw [taskCtx_of_flowGet_none hget]
    exact congrArg deadlineOf (flowEnqueueNoState_ctx enqFlags)
  · rw [flowEnqueueNoState_ctx]
    exact ctxOk_none

theorem EnqueueShape.homeless {t : FlowTaskCtx} (hx : flowEnqueueExiting w k p enqFlags = none)
    (hget : flowGet w k p = some t) (hno : noTarget w k p = true)
    (ht : enqueueTests w k p enqFlags = none) : ∃ dsq c, EnqueueShape w k p enqFlags
      (flowEnqueueHomeless w k p (flowEnqueueDefaults t) enqFlags) dsq c := by
  obtain ⟨hj, hd⟩ := flowEnqueueHomeless_joins (w := w) (k := k) (p := p)
    (flowEnqueueDefaults t) enqFlags
  refine ⟨_, _, ⟨⟨[], [], _, rfl, by simp, hj, ?_⟩, by simp [hx], fun _ => Or.inr hno,
    by simp, fun hc _ => ?_⟩⟩
  · rw [ht]
    have hget' : t.deadline = deadlineOf (w.taskCtx p) := deadlineOf_flowGet hget
    exact .untested (hd.trans hget')
  · have hok := flowEnqueueDefaults_ok (flowGet_ok hc hget)
    exact ctxOk_some.mpr ⟨hok.hint, hok.slice⟩

end Shapes

/-- Every enqueue prepares, tests and stores or not, joins one queue with one count, and kicks. -/
theorem flowEnqueue_shape (w : World) (k : Kernel) (p : TaskRef) (enqFlags : UInt64) :
    ∃ dsq c, EnqueueShape w k p enqFlags (flowEnqueue w k p enqFlags) dsq c := by
  unfold flowEnqueue
  simp only
  rcases hx : flowEnqueueExiting w k p enqFlags with _ | es
  swap
  · exact EnqueueShape.exiting hx
  simp only
  rcases hgate : gateClosed w (k.task p) with _ | _
  swap
  · have hg := hgate
    rw [gateClosed] at hg
    rw [hg, if_pos rfl]
    exact EnqueueShape.gateMiss hx hgate
  have ht := enqueueTests_of_open hx hgate
  have hg := hgate
  rw [gateClosed] at hg
  rw [hg]
  rcases hget : flowGet w k p with _ | t
  · exact EnqueueShape.noState hx hgate hget
  rw [hget] at ht
  simp only [Bool.false_eq_true, ↓reduceIte] at ht ⊢
  split
  · rename_i hpin
    rw [if_pos (by simp [hpin])] at ht
    obtain ⟨dsq, c, h⟩ := flowEnqueuePinned_shape (w := w) (k := k) (p := p)
      (flowEnqueueDefaults t) enqFlags
    exact ⟨dsq, _, h.enqueueShape hx hget ht⟩
  rename_i hpin
  split
  · rename_i hno
    have hno' : noTarget w k p = true := hno
    rw [if_neg (by simp [hpin, hno'])] at ht
    exact EnqueueShape.homeless hx hget hno' ht
  · rename_i hno
    have hno' : noTarget w k p = false := by simpa [noTarget] using hno
    rw [if_pos (by simp [hno'])] at ht
    have hok : flowCpuOk w (k.task p)
        (flowPickTarget w k p (k.task p).selectedCpu) = true := by simpa using hno
    obtain ⟨dsq, c, h⟩ := flowEnqueueLive_shape (w := w) (k := k) (p := p)
      (t := flowEnqueueDefaults t) (flowCpuOk_iff.mp hok).2.2.1 enqFlags
    exact ⟨dsq, _, h.enqueueShape hx hget ht⟩

end ScxFlow
