import ScxFlow.Proofs.Effects
import ScxFlow.Proofs.EnqueuePaths

/-!
# What a wait stores, and the key it joins with

The miss rejoin, the open path and the pinned wait each build a fair key of their own, in their own
order of reading and writing the task.  `flowEnqueue_waits` says that they come to the same: the
storage they return has one rule for its slice, and where they join a tier they do so with the one
key `fairKey` of that storage.
-/

namespace ScxFlow

variable {w : World} {k : Kernel} {p : TaskRef} {enqFlags : UInt64}

section Rules

/-- The key of a wait with the storage `t`, and the bound of a latency critical one. -/
def fairKey (t : FlowTaskCtx) (now : UInt64) (boost : Bool) : UInt64 :=
  let vt := flowMakeFair t t.deadline t.hintW
  flowEnqueueCapKey (if boost then flowEdfKey vt (flowLatDeadline now t.sliceNs) else vt) now

/-- The latency of the wait that takes the storage `t` to `t'`, on the sleep it ends. -/
def waitIsLat (t t' : FlowTaskCtx) (now : UInt64) : Bool :=
  flowEnqueueIsLat t'.avgNs.toUInt64 t'.devNs.toUInt64 t'.hintUs
    (flowSleepNs t.waitAt now t'.avgNs.toUInt64) (flowTaskEffectiveWeight t'.weight t'.hintW)

/-- A wait whose key the bound of the latency critical ones caps. -/
def waitBoosts (t t' : FlowTaskCtx) (now enqFlags : UInt64) : Bool :=
  !flowMissed t.deadline now && !isReenq enqFlags && !isPreempt enqFlags && waitIsLat t t' now

/-- The slice of a wait: held past a miss, kept by a requeue and under the preempt flag, and else
what is left to the fresh deadline. -/
def waitSlice (t t' : FlowTaskCtx) (now enqFlags : UInt64) : UInt32 :=
  let s := (flowEnqueueDefaults t).sliceNs
  if flowMissed t.deadline now then flowSliceMissHold s
  else if isReenq enqFlags then flowSliceInherit s
  else if isPreempt enqFlags then s
  else flowSliceLatClamp (flowSliceTierCap (flowSliceFor t'.deadline now) t'.avgNs.toUInt64
    t'.devNs.toUInt64 (waitIsLat t t' now)) (waitIsLat t t' now)

/-- What a wait stores over the storage `t`. -/
structure WaitStores (w : World) (k : Kernel) (p : TaskRef) (enqFlags : UInt64)
    (t t' : FlowTaskCtx) : Prop where
  avg : t'.avgNs = t.avgNs
  dev : t'.devNs = t.devNs
  weight : t'.weight = (flowEnqueueDefaults t).weight
  hint : (t'.hintUs, t'.hintW) = (flowEnqueueHint w k p (flowEnqueueDefaults t) enqFlags).1
  deadline : t'.deadline
    = flowPredDeadline k.now t'.avgNs.toUInt64 t'.devNs.toUInt64 t'.hintUs
  vruntime : flowCpuOk w (k.task p) (enqueueTarget w k p) = true →
    t'.vruntime = (flowClampToMin w t (enqueueTarget w k p).toNat).vruntime
  slice : t'.sliceNs = waitSlice t t' k.now enqFlags
  runAt : t'.runAt = t.runAt

/-- Every insertion into a tier has this key. -/
def TierKey (es : List Effect) (key : UInt64) : Prop :=
  ∀ dsq key' flags, Effect.insertVtime dsq key' flags ∈ es → dsq ≠ flowOverflowDsq → key' = key

theorem TierKey.append {es es' : List Effect} {key : UInt64} (h : TierKey es key)
    (h' : TierKey es' key) : TierKey (es ++ es') key := fun dsq key' flags he hd => by
  rcases List.mem_append.mp he with he | he
  · exact h dsq key' flags he hd
  · exact h' dsq key' flags he hd

theorem tierKey_of_none {es : List Effect} {key : UInt64} (h : ∀ e ∈ es, e.insertedTo = none) :
    TierKey es key := fun dsq key' flags he _ => by cases h _ he

theorem insertedTo_of_isKick {e : Effect} (h : e.isKick = true) : e.insertedTo = none := by
  cases e with
  | insertVtime dsq key flags => cases h
  | insert dsq flags => cases h
  | _ => rfl

theorem insertedTo_of_isPrep {e : Effect} (h : e.isPrep = true) : e.insertedTo = none := by
  cases e with
  | insertVtime dsq key flags => cases h
  | insert dsq flags => cases h
  | _ => rfl

theorem tierKey_kicks (key : UInt64) (t : Option FlowTaskCtx) (sel : ℤ) :
    TierKey (flowKickIdleAllowed w k p t sel) key :=
  tierKey_of_none fun e he => insertedTo_of_isKick (flowKickIdleAllowed_isKick w k p t sel e he)

theorem tierKey_reject {r : FlowRejectTail} {es : List Effect} (key : UInt64)
    (h : flowEnqueueReject w k p r = some es) : TierKey es key := by
  unfold flowEnqueueReject at h
  split at h
  · cases h
  · obtain rfl := Option.some.inj h
    refine TierKey.append (fun dsq key' flags he hd => ?_) (tierKey_kicks key _ _)
    simp only [flowOverflowInsert, List.mem_cons, reduceCtorEq, Effect.insertVtime.injEq,
      List.not_mem_nil, or_false, false_or] at he
    exact absurd he.1 hd

/-- A join of a tier has the key it is given, whatever tier the drain picks. -/
theorem flowTierInsertHint_key (cpu : ℤ) (vtime now : UInt64) (localQ nodeQ : ℤ) :
    ∃ dsq, flowTierInsertHint w cpu vtime now localQ nodeQ = .insertVtime dsq vtime 0 := by
  unfold flowTierInsertHint
  simp only
  split_ifs <;> exact ⟨_, rfl⟩

theorem flowTierInsert_key (cpu : ℤ) (vtime now : UInt64) :
    ∃ dsq, flowTierInsert w cpu vtime now = .insertVtime dsq vtime 0 := by
  unfold flowTierInsert
  split
  · exact flowTierInsertHint_key _ _ _ _ _
  · exact flowTierInsertHint_key _ _ _ _ _

theorem tierKey_single {e : Effect} {key : UInt64} (h : ∃ dsq, e = .insertVtime dsq key 0) :
    TierKey [e] key := by
  obtain ⟨d, rfl⟩ := h
  intro dsq key' flags he _
  simp only [List.mem_singleton, Effect.insertVtime.injEq] at he
  exact he.2.1

theorem tierKey_insert (cpu : ℤ) (vtime now : UInt64) :
    TierKey [flowTierInsert w cpu vtime now, .count .admits 1] vtime :=
  (tierKey_single (flowTierInsert_key cpu vtime now)).append
    (tierKey_of_none (by simp [Effect.insertedTo]))

end Rules

section FairTimes

/-- The open tail `flow_enqueue` and the pinned path build of a task's storage. -/
def openWait (t : FlowTaskCtx) (now enqFlags : UInt64) : FlowOpenTail :=
  ⟨t, t.deadline, now, enqFlags, t.hintUs, t.hintW, t.avgNs.toUInt64, t.devNs.toUInt64,
    isReenq enqFlags⟩

/-- A fair time stamps the wait and sets the slice, and its key is that of the storage it leaves. -/
def FairOf (t : FlowTaskCtx) (now : UInt64) (slice : UInt32) (boost : Bool)
    (f : FlowTaskCtx × FlowOpenOut) : Prop :=
  f.1 = { t with waitAt := now, sliceNs := slice } ∧ f.2.vtime = fairKey f.1 now boost

theorem flowEnqueueFresh_fair (t : FlowTaskCtx) (now enqFlags : UInt64) :
    FairOf t now (if isPreempt enqFlags then t.sliceNs
        else flowSliceLatClamp (flowSliceTierCap (flowSliceFor t.deadline now) t.avgNs.toUInt64
          t.devNs.toUInt64 (waitIsLat t t now)) (waitIsLat t t now))
      (!isPreempt enqFlags && waitIsLat t t now) (flowEnqueueFresh (openWait t now enqFlags)) := by
  unfold flowEnqueueFresh openWait
  simp only
  rcases isPreempt enqFlags with _ | _
  · exact ⟨rfl, rfl⟩
  · exact ⟨rfl, rfl⟩

/-- The slice of a fair time over the storage `t`, which has its fresh deadline. -/
def fairSlice (t : FlowTaskCtx) (now enqFlags : UInt64) (miss : Bool) : UInt32 :=
  if miss then flowSliceMissHold t.sliceNs
  else if isReenq enqFlags then flowSliceInherit t.sliceNs
  else if isPreempt enqFlags then t.sliceNs
  else flowSliceLatClamp (flowSliceTierCap (flowSliceFor t.deadline now) t.avgNs.toUInt64
    t.devNs.toUInt64 (waitIsLat t t now)) (waitIsLat t t now)

/-- A fair time that boosts just where it is no miss, no requeue and not under the flag. -/
abbrev FairWait (t : FlowTaskCtx) (now enqFlags : UInt64) (miss : Bool)
    (f : FlowTaskCtx × FlowOpenOut) : Prop :=
  FairOf t now (fairSlice t now enqFlags miss)
    (!miss && !isReenq enqFlags && !isPreempt enqFlags && waitIsLat t t now) f

theorem flowPinnedFair_fair (t : FlowTaskCtx) (now enqFlags : UInt64) (miss : Bool) :
    FairWait t now enqFlags miss (flowPinnedFair (openWait t now enqFlags) miss) := by
  have hfresh := flowEnqueueFresh_fair t now enqFlags
  have hreenq : (openWait t now enqFlags).isReenq = isReenq enqFlags := rfl
  unfold FairWait fairSlice flowPinnedFair
  rcases miss with _ | _
  · rw [hreenq]
    rcases isReenq enqFlags with _ | _
    · exact hfresh
    · exact ⟨rfl, rfl⟩
  · exact ⟨rfl, rfl⟩

theorem flowEnqueueOpen_fair (t : FlowTaskCtx) (now enqFlags : UInt64) :
    FairWait t now enqFlags false (flowEnqueueOpen (openWait t now enqFlags)) := by
  have hfresh := flowEnqueueFresh_fair t now enqFlags
  have hreenq : (openWait t now enqFlags).isReenq = isReenq enqFlags := rfl
  unfold FairWait fairSlice flowEnqueueOpen
  rw [hreenq]
  rcases isReenq enqFlags with _ | _
  · exact hfresh
  · exact ⟨rfl, rfl⟩

end FairTimes

section Storage

/-- The storage a fair time starts from: defaults, the hint, the clamp, the count and the fresh
deadline. -/
def waitFrom (t : FlowTaskCtx) (now : UInt64) (h : UInt32 × UInt32) (vruntime : UInt64)
    (misses : UInt32) : FlowTaskCtx :=
  { flowEnqueueDefaults t with
    hintUs := h.1
    hintW := h.2
    vruntime := vruntime
    misses := misses
    deadline := flowPredDeadline now t.avgNs.toUInt64 t.devNs.toUInt64 h.1 }

theorem flowClampToMin_vruntime (w : World) {t t' : FlowTaskCtx} (h : t'.vruntime = t.vruntime)
    (cpu : ℕ) : (flowClampToMin w t' cpu).vruntime = (flowClampToMin w t cpu).vruntime := by
  unfold flowClampToMin
  simp only [h]
  split_ifs
  · rfl
  · exact h
  · rfl
  · exact h

theorem waitStores_of_fair {t : FlowTaskCtx} {h : UInt32 × UInt32} {v : UInt64} {n : UInt32}
    {f : FlowTaskCtx × FlowOpenOut}
    (hh : (flowEnqueueHint w k p (flowEnqueueDefaults t) enqFlags).1 = h)
    (hv : flowCpuOk w (k.task p) (enqueueTarget w k p) = true →
      v = (flowClampToMin w t (enqueueTarget w k p).toNat).vruntime)
    (hf : FairWait (waitFrom t k.now h v n) k.now enqFlags (flowMissed t.deadline k.now) f) :
    WaitStores w k p enqFlags t f.1
      ∧ f.2.vtime = fairKey f.1 k.now (waitBoosts t f.1 k.now enqFlags) := by
  obtain ⟨hctx, hkey⟩ := hf
  rw [hctx] at hkey ⊢
  exact ⟨⟨rfl, rfl, rfl, hh.symm, rfl, hv, rfl, rfl⟩, hkey⟩

end Storage

section Joins

theorem flowEnqueueRejoin_key (m : FlowMissTail) :
    TierKey (flowEnqueueRejoin w k p m).eff (flowEnqueueCapKey
      (flowMakeFair (flowMissCtx m) (flowMissCtx m).deadline m.hintW) m.now) := by
  unfold flowEnqueueRejoin
  simp only
  refine TierKey.append (tierKey_of_none (by simp [Effect.insertedTo])) ?_
  split
  · rename_i es hr
    exact tierKey_reject _ hr
  · exact TierKey.append (tierKey_insert _ _ _) (tierKey_kicks _ _ _)

theorem tierKey_overflow (enqFlags : UInt64) (value : UInt32) (c : Counter) (key : UInt64) :
    TierKey [.count c 1, flowOverflowInsert enqFlags value] key := fun dsq key' flags he hd => by
  simp only [flowOverflowInsert, List.mem_cons, reduceCtorEq, Effect.insertVtime.injEq,
    List.not_mem_nil, or_false, false_or] at he
  exact absurd he.1 hd

theorem flowPinnedJoin_key (t : FlowTaskCtx) (out : FlowOpenOut) (pc : ℤ) (enqFlags : UInt64) :
    TierKey (flowPinnedJoin w k p t out pc enqFlags).eff out.vtime := by
  unfold flowPinnedJoin
  simp only
  split
  · rename_i es hr
    exact tierKey_reject _ hr
  · split
    · exact TierKey.append (tierKey_insert _ _ _) (tierKey_kicks _ _ _)
    · exact TierKey.append (tierKey_overflow _ _ _ _) (tierKey_kicks _ _ _)

theorem flowEnqueuePlace_key (e : FlowEnqueueTail) :
    TierKey (flowEnqueuePlace w e).2 e.vtime := by
  unfold flowEnqueuePlace
  split
  · split
    · -- the terminal queue takes no key
      exact fun dsq key' flags he _ => by simp at he
    · exact tierKey_single (flowTierInsertHint_key _ _ _ _ _)
  · exact tierKey_single (flowTierInsert_key _ _ _)

theorem flowOpenJoin_key (t : FlowTaskCtx) (out : FlowOpenOut) (cpu : ℤ) (enqFlags : UInt64) :
    TierKey (flowOpenJoin w k p t out cpu enqFlags) out.vtime := by
  unfold flowOpenJoin
  simp only
  split
  · rename_i es hr
    exact tierKey_reject _ hr
  · refine TierKey.append (TierKey.append (tierKey_of_none (by simp [Effect.insertedTo]))
      (flowEnqueuePlace_key _)) (tierKey_of_none fun e he => ?_)
    split at he
    · cases he
    · exact insertedTo_of_isKick (flowEnqueueKick_isKick w k p t _ e he)

end Joins

/-- A wait that ends on the storage `t'` with its key. -/
def WaitsOn (w : World) (k : Kernel) (p : TaskRef) (enqFlags : UInt64) (t : FlowTaskCtx)
    (o : OpOut) : Prop :=
  ∃ t', o.ctx = some t' ∧ WaitStores w k p enqFlags t t'
    ∧ TierKey o.eff (fairKey t' k.now (waitBoosts t t' k.now enqFlags))

/-- The storage of a wait before its deadline: defaults, the hint and the clamp. -/
def waitBase (t : FlowTaskCtx) (h : UInt32 × UInt32) (vruntime : UInt64) : FlowTaskCtx :=
  { flowEnqueueDefaults t with hintUs := h.1, hintW := h.2, vruntime := vruntime }

section Paths

variable {t : FlowTaskCtx} {h : UInt32 × UInt32} {v : UInt64}

theorem flowEnqueueAdmit_waits (cpu : ℤ)
    (hh : (flowEnqueueHint w k p (flowEnqueueDefaults t) enqFlags).1 = h)
    (hv : flowCpuOk w (k.task p) (enqueueTarget w k p) = true →
      v = (flowClampToMin w t (enqueueTarget w k p).toNat).vruntime)
    (hmiss : flowMissed t.deadline k.now = false) :
    WaitsOn w k p enqFlags t (flowEnqueueAdmit w k p (waitBase t h v) cpu enqFlags) := by
  have hf := flowEnqueueOpen_fair (waitFrom t k.now h v t.misses) k.now enqFlags
  have heq : flowEnqueueAdmit w k p (waitBase t h v) cpu enqFlags
      = ⟨some (flowEnqueueOpen (openWait (waitFrom t k.now h v t.misses) k.now enqFlags)).1,
        [.storeDeadline (waitFrom t k.now h v t.misses).deadline]
          ++ flowOpenJoin w k p
            (flowEnqueueOpen (openWait (waitFrom t k.now h v t.misses) k.now enqFlags)).1
            (flowEnqueueOpen (openWait (waitFrom t k.now h v t.misses) k.now enqFlags)).2 cpu
            enqFlags⟩ := rfl
  rw [← hmiss] at hf
  rw [heq]
  generalize flowEnqueueOpen (openWait (waitFrom t k.now h v t.misses) k.now enqFlags) = f at hf
  obtain ⟨hstores, hkey⟩ := waitStores_of_fair hh hv hf
  refine ⟨f.1, rfl, hstores, TierKey.append (tierKey_of_none (by simp [Effect.insertedTo])) ?_⟩
  rw [← hkey]
  exact flowOpenJoin_key f.1 f.2 cpu enqFlags

theorem flowEnqueueRejoin_waits (cpu sel : ℤ)
    (hh : (flowEnqueueHint w k p (flowEnqueueDefaults t) enqFlags).1 = h)
    (hv : flowCpuOk w (k.task p) (enqueueTarget w k p) = true →
      v = (flowClampToMin w t (enqueueTarget w k p).toNat).vruntime)
    (hmiss : flowMissed t.deadline k.now = true) :
    WaitsOn w k p enqFlags t (flowEnqueueRejoin w k p ⟨waitBase t h v, cpu, sel, k.now, enqFlags,
      h.1, h.2, t.avgNs.toUInt64, t.devNs.toUInt64⟩) := by
  generalize hm : (⟨waitBase t h v, cpu, sel, k.now, enqFlags, h.1, h.2, t.avgNs.toUInt64,
    t.devNs.toUInt64⟩ : FlowMissTail) = m
  have hctx : flowMissCtx m = { waitFrom t k.now h v (flowCountMiss (waitBase t h v)).misses with
      waitAt := k.now
      sliceNs := fairSlice (waitFrom t k.now h v (flowCountMiss (waitBase t h v)).misses) k.now
        enqFlags true } := by
    subst hm
    unfold flowMissCtx
    simp only
    rw [flowCountMiss_eq]
    rfl
  have hkey := flowEnqueueRejoin_key (w := w) (k := k) (p := p) m
  have hmiss' : flowMissed t.deadline k.now = true := hmiss
  obtain ⟨hstores, hvt⟩ := waitStores_of_fair (f := (flowMissCtx m,
    ⟨fairKey (flowMissCtx m) k.now false, 0, 0, false, false⟩)) hh hv
    (by rw [hmiss']; exact ⟨hctx, rfl⟩)
  refine ⟨flowMissCtx m, rfl, hstores, ?_⟩
  rw [← hvt]
  have hhint : m.hintW = (flowMissCtx m).hintW := by
    rw [hctx, ← hm]
    rfl
  have hnow : m.now = k.now := by rw [← hm]
  rw [hhint, hnow] at hkey
  exact hkey

theorem flowPinnedCtx_waits : flowPinnedCtx (waitBase t h v) k.now
    = waitFrom t k.now h v (flowPinnedCtx (waitBase t h v) k.now).misses := by
  unfold flowPinnedCtx
  simp only
  split
  · rw [flowCountMiss_eq]
    rfl
  · rfl

theorem flowPinnedWait_waits
    (hh : (flowEnqueueHint w k p (flowEnqueueDefaults t) enqFlags).1 = h)
    (hv : flowCpuOk w (k.task p) (enqueueTarget w k p) = true →
      v = (flowClampToMin w t (enqueueTarget w k p).toNat).vruntime) (pc : ℤ) :
    WaitsOn w k p enqFlags t (flowPinnedWait w k p (waitBase t h v) pc enqFlags) := by
  have hmiss : flowPinnedMissed (waitBase t h v) k.now = flowMissed t.deadline k.now :=
    flowPinnedMissed_eq _ _
  have heq : flowPinnedWait w k p (waitBase t h v) pc enqFlags
      = (fun f : FlowTaskCtx × FlowOpenOut =>
        (⟨(flowPinnedJoin w k p f.1 f.2 pc enqFlags).ctx,
          (if flowMissed t.deadline k.now then [.count .misses 1] else [])
            ++ [.storeDeadline (flowPinnedCtx (waitBase t h v) k.now).deadline]
            ++ (flowPinnedJoin w k p f.1 f.2 pc enqFlags).eff⟩ : OpOut))
        (flowPinnedFair (openWait (flowPinnedCtx (waitBase t h v) k.now) k.now enqFlags)
          (flowMissed t.deadline k.now)) := by
    unfold flowPinnedWait openWait
    simp only [hmiss]
  have hf := flowPinnedFair_fair (flowPinnedCtx (waitBase t h v) k.now) k.now enqFlags
    (flowMissed t.deadline k.now)
  rw [heq]
  generalize flowPinnedFair (openWait (flowPinnedCtx (waitBase t h v) k.now) k.now enqFlags)
    (flowMissed t.deadline k.now) = f at hf
  rw [flowPinnedCtx_waits] at hf
  obtain ⟨hstores, hkey⟩ := waitStores_of_fair hh hv hf
  have hctx : (flowPinnedJoin w k p f.1 f.2 pc enqFlags).ctx = some f.1 := by
    have hwait : f.1.waitAt = k.now := by rw [hf.1]
    unfold flowPinnedJoin
    simp only
    split
    · rfl
    · split
      · rfl
      · rw [← hwait]
  refine ⟨f.1, hctx, hstores, ?_⟩
  have hpre : TierKey ((if flowMissed t.deadline k.now then [Effect.count .misses 1] else [])
      ++ [.storeDeadline (flowPinnedCtx (waitBase t h v) k.now).deadline]) f.2.vtime := by
    refine tierKey_of_none fun e he => ?_
    split at he
    · simp only [List.cons_append, List.nil_append, List.mem_cons, List.not_mem_nil, or_false]
        at he
      rcases he with rfl | rfl <;> rfl
    · simp only [List.nil_append, List.mem_singleton] at he
      rw [he]
      rfl
  rw [← hkey]
  exact hpre.append (flowPinnedJoin_key f.1 f.2 pc enqFlags)

end Paths

/-- What comes before the tested storage adds no tier insertion. -/
theorem WaitsOn.prepend {t : FlowTaskCtx} {o : OpOut} {pre : List Effect}
    (h : WaitsOn w k p enqFlags t o) (hp : ∀ e ∈ pre, e.insertedTo = none) :
    WaitsOn w k p enqFlags t ⟨o.ctx, pre ++ o.eff⟩ := by
  obtain ⟨t', hctx, hst, hkey⟩ := h
  exact ⟨t', hctx, hst, (tierKey_of_none hp).append hkey⟩

theorem insertedTo_of_hint {t : FlowTaskCtx} :
    ∀ e ∈ (flowEnqueueHint w k p t enqFlags).2, e.insertedTo = none :=
  fun e he => insertedTo_of_isPrep (flowEnqueueHint_isPrep w k p t enqFlags e he)

theorem waitBase_defaults (t : FlowTaskCtx) (h : UInt32 × UInt32) :
    { flowEnqueueDefaults t with hintUs := h.1, hintW := h.2 } = waitBase t h t.vruntime := rfl

theorem flowClampToMin_waitBase (t : FlowTaskCtx) (h : UInt32 × UInt32) (cpu : ℕ) :
    flowClampToMin w (waitBase t h t.vruntime) cpu
      = waitBase t h (flowClampToMin w t cpu).vruntime := by
  have hbase : (waitBase t h t.vruntime).vruntime = t.vruntime := rfl
  have hv : (flowClampToMin w (waitBase t h t.vruntime) cpu).vruntime
      = (flowClampToMin w t cpu).vruntime := flowClampToMin_vruntime w hbase cpu
  rw [flowClampToMin_eq, hv]
  rfl

theorem flowEnqueueLive_waits (t : FlowTaskCtx) (enqFlags : UInt64) :
    WaitsOn w k p enqFlags t
      (flowEnqueueLive w k p (flowEnqueueDefaults t) (enqueueTarget w k p) enqFlags) := by
  unfold flowEnqueueLive
  simp only
  generalize hh : (flowEnqueueHint w k p (flowEnqueueDefaults t) enqFlags).1 = h
  rw [waitBase_defaults, flowClampToMin_waitBase]
  refine WaitsOn.prepend ?_ fun e he => ?_
  · rw [flowEnqueueMiss_eq]
    have hdl : (waitBase t h (flowClampToMin w t (enqueueTarget w k p).toNat).vruntime).deadline
        = t.deadline := rfl
    simp only [hdl]
    rcases hmiss : flowMissed t.deadline k.now with _ | _
    · exact flowEnqueueAdmit_waits _ hh (fun _ => rfl) hmiss
    · exact flowEnqueueRejoin_waits _ _ hh (fun _ => rfl) hmiss
  · rcases List.mem_append.mp he with he | he
    · split at he
      · rw [List.mem_singleton.mp he]
        rfl
      · cases he
    · exact insertedTo_of_hint e he

theorem flowEnqueuePinned_waits (t : FlowTaskCtx) (enqFlags : UInt64) :
    WaitsOn w k p enqFlags t (flowEnqueuePinned w k p (flowEnqueueDefaults t) enqFlags) := by
  unfold flowEnqueuePinned
  simp only
  generalize hh : (flowEnqueueHint w k p (flowEnqueueDefaults t) enqFlags).1 = h
  have htgt : flowPickTarget w k p (k.task p).selectedCpu = enqueueTarget w k p := rfl
  rw [waitBase_defaults, htgt]
  refine WaitsOn.prepend ?_ insertedTo_of_hint
  by_cases hok : enqueueTarget w k p ≥ 0 ∧ flowCpuOk w (k.task p) (enqueueTarget w k p) = true
  · rw [if_pos hok, flowClampToMin_waitBase]
    exact flowPinnedWait_waits hh (fun _ => rfl) _
  · rw [if_neg hok]
    refine flowPinnedWait_waits hh (fun hlive => absurd ⟨?_, hlive⟩ hok) _
    by_contra hneg
    unfold flowCpuOk at hlive
    rw [if_pos (by omega)] at hlive
    cases hlive

/-- An enqueue that tests the deadline of the storage `t` ends the wait of `t`. -/
theorem flowEnqueue_waits {t : FlowTaskCtx} (ht : enqueueTests w k p enqFlags = some t) :
    WaitsOn w k p enqFlags t (flowEnqueue w k p enqFlags) := by
  obtain ⟨hx, hgate, hget, hlive⟩ := enqueueTests_eq_some ht
  rw [gateClosed] at hgate
  unfold flowEnqueue
  simp only [hx, hgate, hget, Bool.false_eq_true, ↓reduceIte]
  split
  · exact flowEnqueuePinned_waits t enqFlags
  · rename_i hpin
    rw [hlive hpin]
    exact flowEnqueueLive_waits t enqFlags

theorem tierKey_exiting {es : List Effect} (key : UInt64)
    (h : flowEnqueueExiting w k p enqFlags = some es) : TierKey es key := by
  unfold flowEnqueueExiting at h
  simp only at h
  split at h
  swap
  · cases h
  obtain rfl := Option.some.inj h
  refine TierKey.append (fun dsq key' flags he _ => by simp at he)
    (tierKey_of_none fun e he => ?_)
  split at he
  · simp only [List.mem_cons, List.not_mem_nil, or_false] at he
    rcases he with rfl | rfl
    · rfl
    · rfl
  · cases he

/-- The enqueues of a task with storage that test no deadline: exiting, past a closed gate, or
without a target. -/
theorem flowEnqueue_untested {t : FlowTaskCtx} (hget : flowGet w k p = some t)
    (ht : enqueueTests w k p enqFlags = none) :
    (∃ es, flowEnqueueExiting w k p enqFlags = some es
        ∧ flowEnqueue w k p enqFlags = ⟨w.taskCtx p, es⟩)
      ∨ flowEnqueue w k p enqFlags = flowEnqueueGateMiss w k p enqFlags
      ∨ flowEnqueue w k p enqFlags
        = flowEnqueueHomeless w k p (flowEnqueueDefaults t) enqFlags := by
  unfold flowEnqueue
  simp only
  rcases hx : flowEnqueueExiting w k p enqFlags with _ | es
  swap
  · exact Or.inl ⟨es, rfl, rfl⟩
  rcases hgate : gateClosed w (k.task p) with _ | _
  swap
  · rw [gateClosed] at hgate
    rw [hgate]
    exact Or.inr (Or.inl rfl)
  rw [enqueueTests_of_open hx hgate, hget] at ht
  simp only at ht
  split at ht
  · cases ht
  rename_i hno
  simp only [Bool.or_eq_true, not_or, Bool.not_eq_true, Bool.not_eq_false'] at hno
  rw [gateClosed] at hgate
  have hlive : flowCpuOk w (k.task p) (flowPickTarget w k p (k.task p).selectedCpu) = false := by
    simpa [noTarget] using hno.2
  rw [hgate, hget]
  simp only [Bool.false_eq_true, ↓reduceIte, hno.1, hlive, Bool.not_false]
  exact Or.inr (Or.inr trivial)

theorem flowEnqueue_untiered {t : FlowTaskCtx} (hget : flowGet w k p = some t)
    (ht : enqueueTests w k p enqFlags = none) (key : UInt64) :
    TierKey (flowEnqueue w k p enqFlags).eff key := by
  rcases flowEnqueue_untested hget ht with ⟨es, hx, heq⟩ | heq | heq
  · rw [heq]
    exact tierKey_exiting key hx
  · obtain ⟨val, heff⟩ := flowEnqueueGateMiss_eff w k p enqFlags
    rw [heq, heff]
    exact (tierKey_overflow _ _ _ _).append (tierKey_kicks _ _ _)
  · rw [heq]
    exact (tierKey_overflow _ _ _ _).append (tierKey_kicks _ _ _)

theorem flowGet_of_stored {t : FlowTaskCtx} (ht : w.taskCtx p = some t) :
    flowGet w k p = some t := by
  unfold flowGet
  rw [ht]

theorem eq_of_enqueueTests {t t₀ : FlowTaskCtx} (hget : flowGet w k p = some t)
    (h : enqueueTests w k p enqFlags = some t₀) : t₀ = t := by
  obtain ⟨-, -, hget₀, -⟩ := enqueueTests_eq_some h
  exact Option.some.inj (hget₀.symm.trans hget)

/-- A task with storage joins a tier only where its deadline was tested. -/
theorem enqueueTests_of_tier {t : FlowTaskCtx} {dsq : ℕ} {key flags : UInt64}
    (hget : flowGet w k p = some t)
    (he : Effect.insertVtime dsq key flags ∈ (flowEnqueue w k p enqFlags).eff)
    (hd : dsq ≠ flowOverflowDsq) : enqueueTests w k p enqFlags = some t := by
  rcases htests : enqueueTests w k p enqFlags with _ | t₀
  · -- no key at all is one that an untested enqueue joins a tier with
    have hkey := flowEnqueue_untiered hget htests (key + 1) dsq key flags he hd
    simp at hkey
  rw [eq_of_enqueueTests hget htests]

/-- Only a live target has its tiers joined. -/
theorem target_of_tier {dsq : ℕ} {key flags : UInt64}
    (he : Effect.insertVtime dsq key flags ∈ (flowEnqueue w k p enqFlags).eff)
    (hd : dsq ≠ flowOverflowDsq) : flowCpuOk w (k.task p) (enqueueTarget w k p) = true := by
  obtain ⟨pre, rest, heff, hpre, hends⟩ := flowEnqueue_ends w k p enqFlags
  rw [heff] at he
  have hrest : Effect.insertVtime dsq key flags ∈ rest := by
    rcases List.mem_append.mp he with he | he
    · cases hpre _ he
    · exact he
  have hkicks (ctx : Option FlowTaskCtx) :
      Effect.insertVtime dsq key flags ∉ flowKickIdleAllowed w k p ctx (k.task p).selectedCpu :=
    fun h => by cases flowKickIdleAllowed_isKick w k p ctx _ _ h
  generalize openTail w k p enqFlags = tail at hends
  generalize (flowEnqueue w k p enqFlags).ctx = ctx' at hends
  cases hends with
  | exiting cpu hx hok =>
    rcases List.mem_append.mp hrest with h | h
    · simp at h
    · split at h
      · simp at h
      · cases h
  | rejected c hc key' flags' =>
    rcases List.mem_append.mp hrest with h | h
    · simp only [List.mem_cons, reduceCtorEq, Effect.insertVtime.injEq, List.not_mem_nil, or_false,
        false_or] at h
      exact absurd h.1 hd
    · exact absurd h (hkicks _)
  | rejoined vtime hok => exact hok
  | placed t e hcpu hok hnow helig => exact hcpu ▸ hok

end ScxFlow
