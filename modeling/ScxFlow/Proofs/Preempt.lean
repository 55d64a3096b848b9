import ScxFlow.Proofs.Kicks

/-!
# Preemption against the strict key

The arrival brings its strict key to the preempt test, and the owner of the CPU its stored deadline.
A preempt leads the owner's own strict key by the margin exactly when the owner's virtual deadline,
which the test never sees, does not come first or is led as well [flowEnqueue_preempts_iff].
-/

namespace ScxFlow

variable {w : World} {k : Kernel} {p : TaskRef} {t octx : FlowTaskCtx} {e : FlowEnqueueTail}
  {enqFlags : UInt64}

section TwoKeys

/-- The virtual deadline `flow_make_fair` builds from the state of an owner. -/
def occupantVirt (octx : FlowTaskCtx) : UInt64 :=
  flowVirtDeadline octx.vruntime
    (if octx.sliceNs = 0 then flowQuantumNs.toUInt32 else octx.sliceNs).toUInt64
    (flowTaskEffectiveWeight (if octx.weight = 0 then flowWeightBase.toUInt32 else octx.weight)
      octx.hintW)

/-- The strict key of an owner. -/
def occupantKey (octx : FlowTaskCtx) : UInt64 := flowMakeFair octx octx.deadline octx.hintW

/-- `key` is more than the margin before `occ`. -/
def Leads (key occ : UInt64) : Prop :=
  flowTimeBefore (flowSatAdd key flowPreemptMarginNs) occ = true

/-- The state of the owner of a CPU, as an enqueue of `p` with the state `t` looks it up. -/
def Owns (w : World) (k : Kernel) (p : TaskRef) (t : Option FlowTaskCtx) (cpu : ℤ)
    (octx : FlowTaskCtx) : Prop :=
  ∃ q, k.taskFromPid (w.cpuState cpu.toNat).runningPid = some q
    ∧ Function.update w.taskCtx p t q = some octx

/-- Every preempt of the enqueue leads the strict key of the owner it goes against, with the key
that the enqueue inserts. -/
def PreemptsByKey (w : World) (k : Kernel) (p : TaskRef) (o : OpOut) : Prop :=
  ∀ cpu, .kickPreempt cpu ∈ o.eff → ∀ dsq key flags, .insertVtime dsq key flags ∈ o.eff →
    ∀ octx, Owns w k p o.ctx cpu octx → Leads key (occupantKey octx)

/-- The gates of the preempt tail let `t` through against `octx`. -/
structure Opens (w : World) (k : Kernel) (p : TaskRef) (t : FlowTaskCtx) (e : FlowEnqueueTail)
    (octx : FlowTaskCtx) : Prop where
  queued : (flowEnqueuePlace w e).1 = false
  elig : e.hoistElig = true
  fresh : e.isReenq = false
  row : e.cpu.toNat < flowMaxCpus
  busy : (w.cpuState e.cpu.toNat).runningPid ≠ 0
  other : (w.cpuState e.cpu.toNat).runningPid ≠ (k.task p).pid
  owner : ∃ q, k.taskFromPid (w.cpuState e.cpu.toNat).runningPid = some q
    ∧ (k.task q).taskCpu = e.cpu ∧ Function.update w.taskCtx p (some t) q = some octx
  deadline : octx.deadline ≠ 0
  lat : flowCtxIsLat t e.arrSleep = true
  lead : flowPreemptOk e.vtime octx.deadline e.now octx.runAt octx.sliceNs true
    (flowCtxIsLat octx 0) = true

/-- The virtual deadline of the owner does not come first, or the key leads it too. -/
def VirtLed (key : UInt64) (octx : FlowTaskCtx) : Prop :=
  occupantVirt octx = 0 ∨ flowTimeBefore (occupantVirt octx) octx.deadline = false
    ∨ Leads key (occupantVirt octx)

/-- Where the gates let an arrival through, the virtual deadline of the owner is led. -/
def PreemptsSound (w : World) (k : Kernel) (p : TaskRef) (enqFlags : UInt64) : Prop :=
  ∀ t e, openTail w k p enqFlags = some (t, e) → ∀ octx, Opens w k p t e octx → VirtLed e.vtime octx

end TwoKeys

section OnePreempt

theorem leads_of_preemptOk {arrKey occKey now occRunAt : UInt64} {occCur : UInt32}
    {arrLat occLat : Bool}
    (h : flowPreemptOk arrKey occKey now occRunAt occCur arrLat occLat = true) :
    Leads arrKey occKey := by
  by_contra hlead
  have hmargin : (!flowTimeBefore (flowSatAdd arrKey flowPreemptMarginNs) occKey) = true := by
    simpa [Leads] using hlead
  unfold flowPreemptOk at h
  simp only [hmargin, ↓reduceIte, ite_self] at h
  cases h

/-- A key that leads the owner's deadline leads its strict key exactly when `VirtLed` holds. -/
theorem leads_occupantKey_iff {key : UInt64} (hd : octx.deadline ≠ 0)
    (hl : Leads key octx.deadline) : Leads key (occupantKey octx) ↔ VirtLed key octx := by
  have hkey : occupantKey octx = flowEdfKey octx.deadline (occupantVirt octx) := rfl
  rw [hkey]
  unfold flowEdfKey VirtLed
  rw [if_neg hd]
  split_ifs with hv hb
  · exact iff_of_true hl (Or.inl hv)
  · simp [hv, hb]
  · exact iff_of_true hl (Or.inr (Or.inl (by simpa using hb)))

theorem flowKickIdleAllowed_no_preempt {s : Option FlowTaskCtx} {sel cpu : ℤ} :
    .kickPreempt cpu ∉ flowKickIdleAllowed w k p s sel := by
  have hone {c : ℤ} {es : List Effect} (h : flowKickOneIfIdle w (k.task p) c s = some es) :
      .kickPreempt cpu ∉ es := by
    unfold flowKickOneIfIdle at h
    split at h
    · cases h
    split at h
    · cases h
    split at h
    · cases h
    split at h
    all_goals
      obtain rfl := Option.some.inj h
      simp
  unfold flowKickIdleAllowed
  simp only
  split
  · rename_i h
    exact hone h
  · split
    · rename_i h
      exact hone h
    · rcases h : flowKickOneIfIdle w (k.task p) (k.cpumaskFirst p) s with _ | es
      · simp
      · exact hone h

/-- The kick of the open path preempts exactly when its gates are open. -/
theorem mem_flowEnqueueKick {cpu : ℤ} (hq : (flowEnqueuePlace w e).1 = false)
    (hm : e.cpu.toNat < flowMaxCpus) :
    .kickPreempt cpu ∈ flowEnqueueKick w k p t e ↔ cpu = e.cpu ∧ ∃ octx, Opens w k p t e octx := by
  have hst : flowCpu w e.cpu.toNat = some (w.cpuState e.cpu.toNat) := if_neg (by omega)
  unfold flowEnqueueKick
  rw [hst]
  constructor
  · intro h
    simp only at h
    split at h
    · simp at h
    rename_i helig
    split at h
    · simp at h
    rename_i hbusy
    split at h
    · simp at h
    rename_i hreenq
    split at h
    · simp at h
    rename_i hother
    unfold flowEnqueueKickBusy at h
    split at h
    · simp at h
    rename_i q hpid
    split at h
    · simp at h
    rename_i hcpu
    split at h
    · simp at h
    rename_i octx hctx
    simp only at h
    split at h
    · simp at h
    rename_i hdl
    split at h
    · simp at h
    rename_i hlat
    split at h
    · simp at h
    rename_i hlead
    have harr : flowCtxIsLat t e.arrSleep = true := by simpa using hlat
    rw [harr] at hlead
    exact ⟨by simpa using h, octx, hq, by simpa using helig, by simpa using hreenq, hm, hbusy,
      hother, ⟨q, hpid, by simpa using hcpu, hctx⟩, hdl, harr, by simpa using hlead⟩
  · rintro ⟨rfl, octx, h⟩
    obtain ⟨q, hpid, hcpu, hctx⟩ := h.owner
    simp only [h.elig, h.fresh, Bool.not_true, Bool.false_eq_true, ↓reduceIte, h.busy, h.other]
    unfold flowEnqueueKickBusy
    simp only [hpid, hcpu, hctx, ne_eq, not_true_eq_false, ↓reduceIte, h.deadline, h.lat,
      Bool.not_true, Bool.false_eq_true, h.lead]
    simp

end OnePreempt

section WholeEnqueue

/-- What an enqueue does on its open path, past the setup. -/
def openEffects (w : World) (k : Kernel) (p : TaskRef) (t : FlowTaskCtx) (e : FlowEnqueueTail) :
    List Effect :=
  [.count .admits 1] ++ (flowEnqueuePlace w e).2
    ++ if (flowEnqueuePlace w e).1 then [] else flowEnqueueKick w k p t e

/-- Only the open path preempts. -/
theorem flowEnqueue_open (w : World) (k : Kernel) (p : TaskRef) (enqFlags : UInt64) :
    (openTail w k p enqFlags = none ∧ ∀ cpu, .kickPreempt cpu ∉ (flowEnqueue w k p enqFlags).eff)
      ∨ ∃ t e pre, openTail w k p enqFlags = some (t, e)
        ∧ (flowEnqueue w k p enqFlags).ctx = some t
        ∧ (flowEnqueue w k p enqFlags).eff = pre ++ openEffects w k p t e
        ∧ (∀ x ∈ pre, x.isSetup = true) ∧ e.cpu.toNat < flowMaxCpus := by
  obtain ⟨pre, rest, heff, hpre, hends⟩ := flowEnqueue_ends w k p enqFlags
  have hsetup {cpu : ℤ} : .kickPreempt cpu ∉ pre :=
    fun h => by simpa [Effect.isSetup] using hpre _ h
  rw [heff]
  generalize (flowEnqueue w k p enqFlags).ctx = ctx at hends ⊢
  generalize openTail w k p enqFlags = tail at hends ⊢
  cases hends with
  | exiting cpu hx hok =>
    refine Or.inl ⟨rfl, fun c h => ?_⟩
    rcases List.mem_append.mp h with h | h
    · exact hsetup h
    · split at h <;> simp at h
  | rejected c hc key flags =>
    refine Or.inl ⟨rfl, fun c h => ?_⟩
    rcases List.mem_append.mp h with h | h
    · exact hsetup h
    · rcases List.mem_append.mp h with h | h
      · simp at h
      · exact flowKickIdleAllowed_no_preempt h
  | rejoined vtime hok =>
    refine Or.inl ⟨rfl, fun c h => ?_⟩
    obtain ⟨dsq, -, hins⟩ := flowTierInsert_tier (w := w) (flowCpuOk_iff.mp hok).2.2.1 vtime k.now
    rw [hins] at h
    rcases List.mem_append.mp h with h | h
    · exact hsetup h
    · rcases List.mem_append.mp h with h | h
      · simp at h
      · exact flowKickIdleAllowed_no_preempt h
  | placed t e hcpu hok hnow helig =>
    exact Or.inr ⟨t, e, pre, rfl, rfl, rfl, hpre, (flowCpuOk_iff.mp hok).2.2.1⟩

/-- The open path preempts exactly when the gates are open, and the key of its insertion is the key
it tests. -/
theorem mem_openEffects {cpu : ℤ} (hm : e.cpu.toNat < flowMaxCpus) :
    .kickPreempt cpu ∈ openEffects w k p t e ↔ cpu = e.cpu ∧ ∃ octx, Opens w k p t e octx := by
  unfold openEffects
  rcases flowEnqueuePlace_cases (w := w) hm with h | ⟨dsq, -, h⟩
  · rw [h]
    refine iff_of_false (by simp) ?_
    rintro ⟨-, octx, ho⟩
    have hq := ho.queued
    rw [h] at hq
    cases hq
  · have hq : (flowEnqueuePlace w e).1 = false := by rw [h]
    rw [← mem_flowEnqueueKick hq hm, h]
    simp

theorem inserted_openEffects {dsq : ℕ} {key flags : UInt64} (hm : e.cpu.toNat < flowMaxCpus)
    (hq : (flowEnqueuePlace w e).1 = false)
    (h : .insertVtime dsq key flags ∈ openEffects w k p t e) : key = e.vtime := by
  unfold openEffects at h
  rcases flowEnqueuePlace_cases (w := w) hm with hp | ⟨dsq', -, hp⟩
  · rw [hp] at hq
    cases hq
  · rw [hp] at h
    simp only [List.cons_append, List.nil_append, List.mem_cons, reduceCtorEq, false_or,
      Effect.insertVtime.injEq] at h
    rcases h with h | h
    · exact h.2.1
    · have hkick := flowEnqueueKick_isKick w k p t e _ h
      simp [Effect.isKick] at hkick

theorem mem_insert_openEffects (hm : e.cpu.toNat < flowMaxCpus)
    (hq : (flowEnqueuePlace w e).1 = false) :
    ∃ dsq, .insertVtime dsq e.vtime 0 ∈ openEffects w k p t e := by
  unfold openEffects
  rcases flowEnqueuePlace_cases (w := w) hm with hp | ⟨dsq, -, hp⟩
  · rw [hp] at hq
    cases hq
  · rw [hp]
    exact ⟨dsq, by simp⟩

theorem Opens.leads_iff (h : Opens w k p t e octx) :
    Leads e.vtime (occupantKey octx) ↔ VirtLed e.vtime octx :=
  leads_occupantKey_iff h.deadline (leads_of_preemptOk h.lead)

/-- The preempts of an enqueue follow the strict key exactly on the inputs where the virtual
deadline of the owner does not come first or is led as well. -/
theorem flowEnqueue_preempts_iff (w : World) (k : Kernel) (p : TaskRef) (enqFlags : UInt64) :
    PreemptsByKey w k p (flowEnqueue w k p enqFlags) ↔ PreemptsSound w k p enqFlags := by
  unfold PreemptsByKey PreemptsSound
  rcases flowEnqueue_open w k p enqFlags with
    ⟨hnone, hno⟩ | ⟨t, e, pre, htail, hctx, heff, hpre, hm⟩
  · refine iff_of_true (fun cpu h => absurd h (hno cpu)) fun t e h => ?_
    rw [hnone] at h
    cases h
  have hkick (cpu : ℤ) : .kickPreempt cpu ∈ (flowEnqueue w k p enqFlags).eff
      ↔ cpu = e.cpu ∧ ∃ octx, Opens w k p t e octx := by
    rw [heff, List.mem_append, ← mem_openEffects hm]
    exact or_iff_right fun h => by simpa [Effect.isSetup] using hpre _ h
  have hins (dsq : ℕ) (key flags : UInt64) :
      .insertVtime dsq key flags ∈ (flowEnqueue w k p enqFlags).eff
        ↔ .insertVtime dsq key flags ∈ openEffects w k p t e := by
    rw [heff, List.mem_append]
    exact or_iff_right fun h => by simpa [Effect.isSetup] using hpre _ h
  simp only [htail, hctx, hkick, hins]
  constructor
  · intro h t' e' heq octx ho
    obtain ⟨rfl, rfl⟩ := Prod.mk.inj (Option.some.inj heq)
    obtain ⟨dsq, hmem⟩ := mem_insert_openEffects (t := t) (k := k) (p := p) hm ho.queued
    obtain ⟨q, hpid, -, hq⟩ := ho.owner
    exact ho.leads_iff.mp (h e.cpu ⟨rfl, octx, ho⟩ dsq e.vtime 0 hmem octx ⟨q, hpid, hq⟩)
  · rintro h cpu ⟨rfl, octx, ho⟩ dsq key flags hmem octx' ⟨q', hpid', hq'⟩
    obtain rfl := inserted_openEffects hm ho.queued hmem
    obtain ⟨q, hpid, -, hq⟩ := ho.owner
    obtain rfl : q' = q := Option.some.inj (hpid'.symm.trans hpid)
    obtain rfl : octx' = octx := Option.some.inj (hq'.symm.trans hq)
    exact ho.leads_iff.mpr (h t e rfl octx' ho)

/-- An arrival with short bursts, whose key is its virtual deadline at 1.025 ms. -/
def shortArrival : FlowTaskCtx :=
  { FlowTaskCtx.fresh with vruntime := 1000000, avgNs := 10000, devNs := 10000 }

/-- An owner of 200 us slices with its deadline at 1.08 s. -/
def slicedOwner (vruntime : UInt64) : FlowTaskCtx :=
  { FlowTaskCtx.fresh with
    vruntime := vruntime, deadline := 1080000000, runAt := 1000000000, sliceNs := 200000 }

/-- An owner whose virtual deadline at 0.2 ms comes before its stored one. -/
def earlyOwner : FlowTaskCtx := slicedOwner 0

/-- An owner whose virtual deadline at 10.2 ms comes before its stored one as well. -/
def laterOwner : FlowTaskCtx := slicedOwner 10000000

/-- Task 1 owns CPU 0, where the minimum is at 1 ms, and task 0 arrives there. -/
def World.ownedBy (octx : FlowTaskCtx) : World :=
  { World.boot 2 1 fun _ => 0 with
    cpuState := Function.update (fun _ => ⟨0, 0, 0⟩) 0 ⟨2, 0, 1000000⟩
    taskCtx := Function.update (Function.update (fun _ => none) 0 (some shortArrival)) 1
      (some octx) }

def World.ownedByEarly : World := World.ownedBy earlyOwner

/-- The arrival preempts an owner whose strict key is before its own. -/
theorem flowEnqueue_preempts_earlier :
    .kickPreempt 0 ∈ (flowEnqueue World.ownedByEarly (Kernel.plain 1000000000) 0 0).eff
      ∧ .insertVtime (flowNodeDsq 0) 1025000 0
        ∈ (flowEnqueue World.ownedByEarly (Kernel.plain 1000000000) 0 0).eff
      ∧ Owns World.ownedByEarly (Kernel.plain 1000000000) 0
        (flowEnqueue World.ownedByEarly (Kernel.plain 1000000000) 0 0).ctx 0 earlyOwner
      ∧ flowTimeBefore (occupantKey earlyOwner) 1025000 = true
      ∧ ¬ PreemptsByKey World.ownedByEarly (Kernel.plain 1000000000) 0
        (flowEnqueue World.ownedByEarly (Kernel.plain 1000000000) 0 0) := by
  have hkick : .kickPreempt 0
      ∈ (flowEnqueue World.ownedByEarly (Kernel.plain 1000000000) 0 0).eff := by
    decide
  have hins : .insertVtime (flowNodeDsq 0) 1025000 0
      ∈ (flowEnqueue World.ownedByEarly (Kernel.plain 1000000000) 0 0).eff := by
    decide
  have howns : Owns World.ownedByEarly (Kernel.plain 1000000000) 0
      (flowEnqueue World.ownedByEarly (Kernel.plain 1000000000) 0 0).ctx 0 earlyOwner :=
    ⟨1, rfl, rfl⟩
  refine ⟨hkick, hins, howns, by decide, fun h => ?_⟩
  have hlead := h 0 hkick _ _ _ hins earlyOwner howns
  unfold Leads at hlead
  revert hlead
  decide

/-- The arrival preempts an owner whose strict key is its virtual deadline and 9 ms after its own. -/
theorem flowEnqueue_preempts_iff_later :
    .kickPreempt 0 ∈ (flowEnqueue (World.ownedBy laterOwner) (Kernel.plain 1000000000) 0 0).eff
      ∧ flowTimeBefore (occupantVirt laterOwner) laterOwner.deadline = true
      ∧ PreemptsByKey (World.ownedBy laterOwner) (Kernel.plain 1000000000) 0
        (flowEnqueue (World.ownedBy laterOwner) (Kernel.plain 1000000000) 0 0) := by
  refine ⟨by decide, by decide,
    (flowEnqueue_preempts_iff (World.ownedBy laterOwner) (Kernel.plain 1000000000) 0 0).mpr ?_⟩
  intro t e htail octx ho
  have hkey : (openTail (World.ownedBy laterOwner) (Kernel.plain 1000000000) 0 0).map
      (fun te => (te.2.cpu, te.2.vtime)) = some (0, 1025000) := by decide
  rw [htail] at hkey
  obtain ⟨hcpu, hvtime⟩ := Prod.mk.inj (Option.some.inj hkey)
  obtain ⟨q, hpid, -, hq⟩ := ho.owner
  simp only at hcpu hvtime
  rw [hcpu] at hpid
  obtain rfl : 1 = q := Option.some.inj hpid
  obtain rfl : laterOwner = octx := Option.some.inj hq
  rw [hvtime]
  exact Or.inr (Or.inr (by unfold Leads; decide))

end WholeEnqueue

end ScxFlow
