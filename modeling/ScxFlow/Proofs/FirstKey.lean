import ScxFlow.Proofs.StrictKey
import ScxFlow.Proofs.TaskRanges

/-!
# The first key of a task

A task that was enabled and neither charged nor queued since holds no virtual time, so its first
virtual deadline is what the clamp to the minimum of its CPU gives it.  The minimum counts service
and the clock does not, so the first key is near the clock only where the two happen to be.
-/

namespace ScxFlow

variable {w : World} {k : Kernel} {p : TaskRef} {t : FlowTaskCtx} {enqFlags : UInt64}

section Enabled

/-- A state as an enable leaves it, but for its share and a segment it may have started. -/
def Newborn (t : FlowTaskCtx) : Prop :=
  ∃ weight runAt, t = { FlowTaskCtx.fresh with weight := weight, runAt := runAt }

/-- The op queues the task or charges it. -/
def Op.schedules (p : TaskRef) : Op → Prop
  | .enqueue q _ | .stopping q _ => q = p
  | _ => False

/-- The storage holds a newborn state. -/
def NewbornIn (c : Option FlowTaskCtx) : Prop := ∃ t, c = some t ∧ Newborn t

theorem fresh_newborn : Newborn FlowTaskCtx.fresh := ⟨_, _, rfl⟩

theorem flowRunning_newborn (h : NewbornIn (w.taskCtx p)) :
    NewbornIn (flowRunning w k p).ctx := by
  obtain ⟨t, ht, weight, runAt, rfl⟩ := h
  unfold flowRunning
  simp only [ht]
  split
  · exact ⟨_, rfl, weight, runAt, rfl⟩
  · split
    · exact ⟨_, rfl, weight, _, rfl⟩
    · exact ⟨_, rfl, weight, runAt, rfl⟩

theorem flowEnable_newborn (h : NewbornIn (w.taskCtx p)) : NewbornIn (flowEnable w k p).ctx := by
  rcases flowEnable_ctx w k p with he | he
  · rwa [he]
  · exact ⟨_, he, fresh_newborn⟩

theorem flowSetWeight_newborn (h : NewbornIn (w.taskCtx p)) (weight : UInt32) :
    NewbornIn ((flowSetWeight w p weight).taskCtx p) := by
  obtain ⟨t, ht, weight', runAt, rfl⟩ := h
  rw [flowSetWeight_taskCtx, Function.update_self, ht]
  exact ⟨_, rfl, _, runAt, rfl⟩

theorem step_newborn (c : Call) (h : NewbornIn (w.taskCtx p)) (hc : ¬ c.op.schedules p) :
    NewbornIn ((w.step c).taskCtx p) :=
  step_storage c h (fun enqFlags he => absurd (by rw [he]; rfl) hc)
    (fun _ => flowRunning_newborn h) (fun runnable he => absurd (by rw [he]; rfl) hc)
    (fun _ => flowEnable_newborn h) fun weight _ => flowSetWeight_newborn h weight

theorem run_newborn (cs : List Call) (h : NewbornIn (w.taskCtx p))
    (hcs : ∀ c ∈ cs, ¬ c.op.schedules p) : NewbornIn ((system.exec w cs).taskCtx p) :=
  system.exec_keeps (I := fun w => NewbornIn (w.taskCtx p)) cs
    (fun _ c hc h => step_newborn c h (hcs c hc)) h

/-- A run from an enable that stored a state, with no wait and no charge of the task since. -/
def SinceEnable (p : TaskRef) (w : World) : Prop :=
  ∃ (w₀ : World) (e : Kernel) (cs : List Call), (flowEnable w₀ e p).ctx = some FlowTaskCtx.fresh
    ∧ (∀ c ∈ cs, ¬ c.op.schedules p) ∧ w = system.exec (w₀.step ⟨e, .enable p⟩) cs

theorem SinceEnable.newborn (h : SinceEnable p w) : NewbornIn (w.taskCtx p) := by
  obtain ⟨w₀, e, cs, hen, hcs, rfl⟩ := h
  refine run_newborn cs ⟨FlowTaskCtx.fresh, ?_, fresh_newborn⟩ hcs
  show (w₀.commit e p (flowEnable w₀ e p)).taskCtx p = _
  rw [commit_taskCtx, Function.update_self, hen]

/-- The exact condition for the earlier of a deadline and a virtual deadline, capped, to fall near
the clock: the virtual deadline is no more than the lag bound behind, or it is so far behind that
it sorts after the deadline or the cap; and it is not so far past both that it sorts before them. -/
def NearNow (now deadline vd : ℕ) : Prop :=
  (now ≤ vd + 2000000 ∨ vd + 2 ^ 63 < deadline
      ∨ now + 80000000 < 2 ^ 64 - 1 ∧ vd + 2 ^ 63 < now + 80000000)
    ∧ (vd < deadline + 2 ^ 63 ∨ vd < now + 80000000 + 2 ^ 63)

instance (now deadline vd : ℕ) : Decidable (NearNow now deadline vd) :=
  inferInstanceAs (Decidable (_ ∧ _))

theorem flowEnqueueCapKey_near_iff {now deadline vd : UInt64} (hvd : 0 < vd.toNat)
    (hpos : 0 < deadline.toNat) (hnow : now.toNat ≤ deadline.toNat)
    (hfar : deadline.toNat ≤ now.toNat + 2 ^ 43) :
    (now.toNat ≤ (flowEnqueueCapKey (flowEdfKey deadline vd) now).toNat + 2000000
        ∧ (flowEnqueueCapKey (flowEdfKey deadline vd) now).toNat ≤ now.toNat + 80000000)
      ↔ NearNow now.toNat deadline.toNat vd.toNat := by
  have hdlt := deadline.toNat_lt
  have hvlt := vd.toNat_lt
  have hedf := flowEdfKey_value hpos hvd
  generalize flowEdfKey deadline vd = vt at hedf
  have hvt : 0 < vt.toNat := by split_ifs at hedf <;> omega
  have hkey := flowEnqueueCapKey_value now hvt
  generalize flowEnqueueCapKey vt now = key at hkey
  unfold NearNow
  split_ifs at hedf hkey <;> omega

end Enabled

section FirstWait

/-- The hint and the share of a first wait. -/
def firstHint (w : World) (k : Kernel) (p : TaskRef) (enqFlags : UInt64) : UInt32 × UInt32 :=
  if isReenq enqFlags then (0, flowWeightBase.toUInt32) else (flowTaskHintWeight w k p).1

def firstDeadline (w : World) (k : Kernel) (p : TaskRef) (enqFlags : UInt64) : UInt64 :=
  flowFallbackDeadline k.now (firstHint w k p enqFlags).1

/-- A first wait under one of the flags asks for the quantum, and else for the shortest tier. -/
def firstSlice (w : World) (k : Kernel) (p : TaskRef) (enqFlags : UInt64) : UInt32 :=
  if isReenq enqFlags || isPreempt enqFlags then flowQuantumNs.toUInt32
  else flowSliceTierCap (flowSliceFor (firstDeadline w k p enqFlags) k.now) 0 0 false

/-- The first virtual deadline: the minimum of the target less the lag bound, and the scaled slice
past it. -/
def firstVd (w : World) (k : Kernel) (p : TaskRef) (weight : UInt32) (enqFlags : UInt64) : ℕ :=
  min ((flowCpuMin w (enqueueTarget w k p).toNat).toNat - 2000000
    + max 1 (128 * (firstSlice w k p enqFlags).toNat
      / (flowTaskEffectiveWeight weight (firstHint w k p enqFlags).2).toNat)) (2 ^ 64 - 1)

/-- What a first wait leaves, as far as its key reads it. -/
structure FirstStored (w : World) (k : Kernel) (p : TaskRef) (enqFlags : UInt64)
    (t t' : FlowTaskCtx) : Prop where
  deadline : t'.deadline = firstDeadline w k p enqFlags
  vd : (fairVd t' t'.hintW).toNat = firstVd w k p t.weight enqFlags
  lat : waitIsLat t t' k.now = false

theorem firstStored (hn : Newborn t) {t' : FlowTaskCtx}
    (hlive : flowCpuOk w (k.task p) (enqueueTarget w k p) = true)
    (h : WaitStores w k p enqFlags t t') : FirstStored w k p enqFlags t t' := by
  obtain ⟨weight, runAt, rfl⟩ := hn
  have havg : t'.avgNs = 0 := h.avg
  have hdev : t'.devNs = 0 := h.dev
  have hhint : (t'.hintUs, t'.hintW) = firstHint w k p enqFlags := h.hint.trans (by
    unfold flowEnqueueHint firstHint
    rcases isReenq enqFlags with _ | _
    · rfl
    · rfl)
  have hus : t'.hintUs = (firstHint w k p enqFlags).1 := congrArg Prod.fst hhint
  have hw : t'.hintW = (firstHint w k p enqFlags).2 := congrArg Prod.snd hhint
  have hdeadline : t'.deadline = firstDeadline w k p enqFlags := by
    rw [h.deadline, havg, hus]
    rfl
  have hlat : waitIsLat { FlowTaskCtx.fresh with weight := weight, runAt := runAt } t' k.now
      = false := by
    unfold waitIsLat flowEnqueueIsLat flowIsLat flowLatCrit
    rw [havg]
    rfl
  have hslice : t'.sliceNs = firstSlice w k p enqFlags := by
    rw [h.slice]
    unfold waitSlice firstSlice
    simp only
    rw [hlat, hdeadline, havg, hdev]
    have hmiss : flowMissed FlowTaskCtx.fresh.deadline k.now = false := flowMissed_zero k.now
    rw [if_neg (by rw [hmiss]; exact Bool.false_ne_true)]
    rcases isReenq enqFlags with _ | _
    · rcases isPreempt enqFlags with _ | _
      · rfl
      · rfl
    · rfl
  refine ⟨hdeadline, ?_, hlat⟩
  have hv := flowClampToMin_toNat w { FlowTaskCtx.fresh with weight := weight, runAt := runAt }
    (enqueueTarget w k p).toNat
  rw [← h.vruntime hlive] at hv
  have hvruntime : t'.vruntime.toNat = (flowCpuMin w (enqueueTarget w k p).toNat).toNat - 2000000 :=
    hv.trans (Nat.zero_max _)
  have hshare : flowTaskEffectiveWeight t'.weight t'.hintW
      = flowTaskEffectiveWeight weight (firstHint w k p enqFlags).2 := by
    rw [h.weight, hw]
    exact flowTaskEffectiveWeight_default weight _
  have hreq : requestedSlice t' = (firstSlice w k p enqFlags).toNat := by
    unfold requestedSlice flowSliceInherit
    rw [if_neg (by rw [h.slice]; exact waitSlice_ne_zero _ _ _ _), hslice]
  rw [fairVd_toNat]
  unfold exactVd effectiveShare firstVd
  rw [hvruntime, hreq, hshare]

/-- **The first key.** In every run since an enable the first key of the task is near the clock
exactly where its first virtual deadline is. -/
theorem firstKey_near_iff {dsq : ℕ} {key flags : UInt64} (h : SinceEnable p w)
    (ht : w.taskCtx p = some t) (hdsq : dsq ≠ flowOverflowDsq)
    (hins : Effect.insertVtime dsq key flags ∈ (flowEnqueue w k p enqFlags).eff) :
    (k.now.toNat ≤ key.toNat + 2000000 ∧ key.toNat ≤ k.now.toNat + 80000000)
      ↔ NearNow k.now.toNat (firstDeadline w k p enqFlags).toNat
        (firstVd w k p t.weight enqFlags) := by
  obtain ⟨t₀, ht₀, hn⟩ := h.newborn
  obtain rfl : t₀ = t := Option.some.inj (ht₀.symm.trans ht)
  have hget : flowGet w k p = some t₀ := flowGet_of_stored ht
  have hlive := target_of_tier hins hdsq
  obtain ⟨t', -, hstores, htier⟩ := flowEnqueue_waits (enqueueTests_of_tier hget hins hdsq)
  have hfirst := firstStored hn hlive hstores
  have hboost : waitBoosts t₀ t' k.now enqFlags = false := by
    unfold waitBoosts
    rw [hfirst.lat, Bool.and_false]
  have hkey := htier dsq key flags hins hdsq
  rw [hboost] at hkey
  have hfair : fairKey t' k.now false
      = flowEnqueueCapKey (flowEdfKey t'.deadline (fairVd t' t'.hintW)) k.now := by
    unfold fairKey
    simp only [Bool.false_eq_true, ↓reduceIte]
    rw [flowMakeFair_eq]
  have hperiod : (firstDeadline w k p enqFlags).toNat = min (k.now.toNat
      + (flowTaskPeriod (firstHint w k p enqFlags).1).toNat) (2 ^ 64 - 1) := flowSatAdd_toNat _ _
  have hle := flowTaskPeriod_le (firstHint w k p enqFlags).1
  have hpos : 0 < (flowTaskPeriod (firstHint w k p enqFlags).1).toNat := by
    rw [flowTaskPeriod_toNat]
    split
    · omega
    · rename_i hne
      have hne' : (firstHint w k p enqFlags).1.toNat ≠ 0 := fun h => hne (UInt32.toNat_inj.mp h)
      omega
  have hnow := k.now.toNat_lt
  rw [hkey, hfair, hfirst.deadline, ← hfirst.vd]
  exact flowEnqueueCapKey_near_iff (fairVd_pos _ _) (by omega) (by omega) (by omega)

/-- From the boot, task 0 runs on CPU 0 and task 1 is enabled there. -/
def World.oneRuns : World :=
  system.exec (World.boot 2 1 fun _ => 0)
    [⟨Kernel.plain 1000, .enable 0⟩, ⟨Kernel.plain 1000, .running 0⟩]

def World.secondEnabled : World :=
  World.oneRuns.step ⟨Kernel.plain 1000, .enable 1⟩

theorem secondEnabled_sinceEnable : SinceEnable 1 World.secondEnabled :=
  ⟨World.oneRuns, Kernel.plain 1000, [], rfl, by simp, rfl⟩

/-- A millisecond after the boot the first key is at the slice of the task, within the lag. -/
theorem firstKey_near_iff_early :
    ((1000000 : UInt64).toNat ≤ (50000 : UInt64).toNat + 2000000
        ∧ (50000 : UInt64).toNat ≤ (1000000 : UInt64).toNat + 80000000)
      ↔ NearNow (1000000 : UInt64).toNat
        (firstDeadline World.secondEnabled (Kernel.plain 1000000) 1 0).toNat
        (firstVd World.secondEnabled (Kernel.plain 1000000) 1 flowWeightBase.toUInt32 0) := by
  have hins : Effect.insertVtime (flowNodeDsq 0) 50000 0
      ∈ (flowEnqueue World.secondEnabled (Kernel.plain 1000000) 1 0).eff := by decide
  have hctx : World.secondEnabled.taskCtx 1 = some FlowTaskCtx.fresh := rfl
  exact firstKey_near_iff secondEnabled_sinceEnable hctx (by decide) hins

/-- A second after the boot it is still there, almost a second behind the clock. -/
theorem firstKey_behind : SinceEnable 1 World.secondEnabled
    ∧ Effect.insertVtime (flowNodeDsq 0) 50000 0
      ∈ (flowEnqueue World.secondEnabled (Kernel.plain 1000000000) 1 0).eff
    ∧ ¬ (1000000000 : UInt64).toNat ≤ (50000 : UInt64).toNat + 2000000 :=
  ⟨secondEnabled_sinceEnable, by decide, by decide⟩

end FirstWait

end ScxFlow
