import ScxFlow.Lib.Epoch
import ScxFlow.System
import ScxFlow.Proofs.Predictor
import ScxFlow.Proofs.Segment

/-!
# The miss count over a history

A deadline opens an epoch of the task's history, which lasts until an enqueue stores the next one.
No completion clears a deadline, so a later stop or enqueue can test it again.  The history counts
each deadline at most once, and only for work not complete by it, exactly when no call finds a
deadline past after the work under it completed (`missHistory_sound_iff`).
-/

namespace ScxFlow

section History

inductive MissOp
  | enqueue (enqFlags : UInt64)
  | running
  | stopping (runnable : Bool)

/-- One call on the task, with the state around it and the view it has. -/
structure MissCall where
  world : World
  view : Kernel
  op : MissOp

/-- An event of the history: a deadline stored, a miss counted, a completion. -/
inductive MissEv
  | stored (deadline : UInt64)
  | counted
  | done (at_ : UInt64)
  deriving DecidableEq

/-- The events among the effects of a call. -/
def missEvents (es : List Effect) : List MissEv :=
  es.filterMap fun e => match e with
    | .storeDeadline d => some (.stored d)
    | .count .misses _ => some .counted
    | _ => none

/-- The task's storage, the clock, and whether the work under its deadline has completed. -/
structure MissState where
  ctx : Option FlowTaskCtx
  clock : UInt64
  settled : Bool

variable (p : TaskRef)

/-- The state around a call, with the task's own storage in place. -/
def MissCall.at (c : MissCall) (s : MissState) : World :=
  { c.world with taskCtx := Function.update c.world.taskCtx p s.ctx }

def MissCall.out (s : MissState) (c : MissCall) : OpOut :=
  match c.op with
  | .enqueue enqFlags => flowEnqueue (c.at p s) c.view p enqFlags
  | .running => flowRunning (c.at p s) c.view p
  | .stopping runnable => flowStopping (c.at p s) c.view p runnable

/-- The storage whose deadline a call tests. -/
def MissCall.tests (s : MissState) (c : MissCall) : Option FlowTaskCtx :=
  match c.op with
  | .enqueue enqFlags => enqueueTests (c.at p s) c.view p enqFlags
  | .stopping false => stopTakes (c.at p s) c.view p
  | _ => none

/-- A call tests the deadline and finds it past. -/
def MissCall.late (s : MissState) (c : MissCall) : Bool :=
  (c.tests p s).any fun t => flowMissed t.deadline c.view.now

/-- The work is complete once a stop that is not runnable comes by its deadline, or is charged past
it; an enqueue that stores a deadline starts over. -/
def MissCall.settles (s : MissState) (c : MissCall) : Bool :=
  match c.op with
  | .enqueue _ => if (c.tests p s).isSome then false else s.settled
  | .stopping false => s.settled || decide (c.view.now ≤ deadlineOf s.ctx) || c.late p s
  | _ => s.settled

/-- The history of one task. -/
def missMachine : Machine MissState MissCall MissEv where
  step s c := ⟨(c.out p s).ctx, c.view.now, c.settles p s⟩
  out s c := (match c.op with
    | .stopping false => [.done c.view.now]
    | _ => []) ++ missEvents (c.out p s).eff

/-- What opens an epoch. -/
def MissEv.opens : MissEv → Option UInt64
  | .stored d => some d
  | _ => none

/-- One epoch: at most one count, and only with no completion by the deadline. -/
def MissEpochOk (deadline : UInt64) (seg : List MissEv) : Prop :=
  seg.count .counted ≤ 1 ∧ (.counted ∈ seg → ∀ t, .done t ∈ seg → deadline < t)

/-- The clock never runs back. -/
def ClockOk (s : MissState) (c : MissCall) : Prop := s.clock ≤ c.view.now

instance (s : MissState) (c : MissCall) : Decidable (ClockOk s c) :=
  inferInstanceAs (Decidable (s.clock ≤ c.view.now))

/-- No call finds a deadline past once the work under it has completed. -/
def NoRetest (s : MissState) (c : MissCall) : Prop := s.settled = true → c.late p s = false

end History

section Events

variable (p : TaskRef)

@[simp] theorem missEvents_append (es es' : List Effect) :
    missEvents (es ++ es') = missEvents es ++ missEvents es' := List.filterMap_append

theorem missEvents_of_aside {es : List Effect} (h : ∀ e ∈ es, e.isAside = true) :
    missEvents es = [] := by
  refine List.filterMap_eq_nil_iff.mpr fun e he => ?_
  have ha := h e he
  cases e with
  | count c n => cases c <;> simp_all [Effect.isAside, Effect.isPrep, Effect.isKick]
  | _ => simp_all [Effect.isAside, Effect.isPrep, Effect.isKick]

theorem Joins.missEvents_eq {es : List Effect} {dsq : ℕ} {c : Option Counter}
    (h : Joins es dsq c) : missEvents es = [] := by
  cases h <;> rfl

theorem EnqueueShape.missEvents_eq {w : World} {k : Kernel} {p : TaskRef} {enqFlags : UInt64}
    {o : OpOut} {dsq : ℕ} {c : Option Counter} (h : EnqueueShape w k p enqFlags o dsq c) :
    ∃ store, missEvents o.eff = missEvents store
      ∧ Stores k.now (w.taskCtx p) o.ctx (enqueueTests w k p enqFlags) store := by
  obtain ⟨prep, store, rest, heff, hp, ⟨join, kicks, rfl, hj, hk⟩, hs⟩ := h.parts
  refine ⟨store, ?_, hs⟩
  rw [heff]
  simp [missEvents_of_aside (aside_of_isPrep hp), hj.missEvents_eq,
    missEvents_of_aside (aside_of_isKick hk)]

theorem deadline_of_enqueueTests {w : World} {k : Kernel} {p : TaskRef} {enqFlags : UInt64}
    {t : FlowTaskCtx} (h : enqueueTests w k p enqFlags = some t) :
    t.deadline = deadlineOf (w.taskCtx p) := by
  obtain ⟨-, -, hget, -⟩ := enqueueTests_eq_some h
  exact deadlineOf_flowGet hget

theorem missEvents_chargeEffects (ts : TaskStruct) (c : FlowTaskCtx) (delta : UInt64) :
    missEvents (chargeEffects ts c delta) = [] := by
  unfold chargeEffects
  split <;> rfl

theorem StopEff.missEvents_eq {ts : TaskStruct} {c : FlowTaskCtx} {now delta : UInt64}
    {runnable : Bool} {es : List Effect} (h : StopEff ts c now delta runnable es) :
    missEvents es = if !runnable && flowMissed c.deadline now then [.counted] else [] := by
  cases h with
  | requeue =>
    rw [missEvents_append, missEvents_chargeEffects]
    rfl
  | complete hcredit =>
    simp only [missEvents_append, missEvents_chargeEffects]
    rcases flowMissed c.deadline now with _ | _ <;> rcases hcredit with rfl | ⟨d, rfl⟩ <;> rfl

theorem missEvents_ownerEffect (w : World) (ts : TaskStruct) :
    missEvents (ownerEffect w ts) = [] := by
  unfold ownerEffect
  split_ifs <;> rfl

theorem flowRunning_missFree (w : World) (k : Kernel) (p : TaskRef) :
    missEvents (flowRunning w k p).eff = []
      ∧ deadlineOf (flowRunning w k p).ctx = deadlineOf (w.taskCtx p) := by
  rcases hgate : flowEntryOk w (k.task p) (k.task p).taskCpu 0 with _ | _
  · rw [flowRunning_of_closed hgate]
    exact ⟨rfl, rfl⟩
  · rcases flowRunning_of_open hgate with ⟨t, ht, hr, heq⟩ | ⟨_, heq⟩
    · rw [heq, ht]
      exact ⟨missEvents_ownerEffect w (k.task p), rfl⟩
    · rw [heq]
      exact ⟨missEvents_ownerEffect w (k.task p), rfl⟩

theorem flowStopping_misses (w : World) (k : Kernel) (p : TaskRef) (runnable : Bool) :
    deadlineOf (flowStopping w k p runnable).ctx = deadlineOf (w.taskCtx p)
      ∧ missEvents (flowStopping w k p runnable).eff
        = (if !runnable && (stopTakes w k p).any fun t => flowMissed t.deadline k.now
          then [.counted] else [])
      ∧ ∀ t, stopTakes w k p = some t → w.taskCtx p = some t := by
  rcases flowStopping_cases w k p runnable with ⟨_, hst, heq⟩ | ⟨_, hst, _, heq⟩ |
    ⟨t, t', es, _, hst, ht, _, heq, hctx, heff⟩
  · rw [heq, hst]
    refine ⟨rfl, ?_, by simp⟩
    cases runnable <;> rfl
  · rw [heq, hst]
    refine ⟨rfl, ?_, by simp⟩
    cases runnable <;> rfl
  · rw [heq, hst, ht]
    refine ⟨hctx.deadline, ?_, by simp⟩
    have hd : (flowStopCharged { t with runAt := 0 } (flowStopDelta k.now t.runAt)).deadline
        = t.deadline := (flowStopCharged_ctx _ rfl).deadline
    have hes := heff.missEvents_eq
    rw [hd] at hes
    have hcons : missEvents (.takeRun t.runAt (flowStopDelta k.now t.runAt) :: es)
        = missEvents es := rfl
    rw [hcons, hes]
    cases runnable <;> simp

@[simp] theorem MissCall.at_taskCtx (c : MissCall) (s : MissState) :
    (c.at p s).taskCtx p = s.ctx := by
  simp [MissCall.at]

/-- What one call does to the history. -/
inductive MissStep (s : MissState) (c : MissCall) : Prop
  /-- It neither tests the deadline nor completes. -/
  | quiet (hd : deadlineOf ((missMachine p).step s c).ctx = deadlineOf s.ctx)
    (hs : ((missMachine p).step s c).settled = s.settled)
    (ho : (missMachine p).out s c = []) (hl : c.late p s = false)
  /-- It tests the deadline and stores the next one. -/
  | store (hd : (deadlineOf ((missMachine p).step s c).ctx).toNat ≤ c.view.now.toNat + 2 ^ 42)
    (hs : ((missMachine p).step s c).settled = false)
    (ho : (missMachine p).out s c = (if c.late p s then [.counted] else [])
      ++ [.stored (deadlineOf ((missMachine p).step s c).ctx)])
  /-- It completes. -/
  | complete (hd : deadlineOf ((missMachine p).step s c).ctx = deadlineOf s.ctx)
    (hs : ((missMachine p).step s c).settled
      = (s.settled || decide (c.view.now ≤ deadlineOf s.ctx) || c.late p s))
    (ho : (missMachine p).out s c
      = .done c.view.now :: if c.late p s then [.counted] else [])

theorem missStep (s : MissState) (c : MissCall) : MissStep p s c := by
  obtain ⟨w, k, op⟩ := c
  cases op with
  | enqueue enqFlags =>
    obtain ⟨dsq, cnt, h⟩ := flowEnqueue_shape (MissCall.at p ⟨w, k, .enqueue enqFlags⟩ s) k p
      enqFlags
    obtain ⟨store, hev, hst⟩ := h.missEvents_eq
    rw [MissCall.at_taskCtx] at hst
    generalize ht : enqueueTests (MissCall.at p ⟨w, k, .enqueue enqFlags⟩ s) k p enqFlags = t at hst
    have htests : MissCall.tests p s ⟨w, k, .enqueue enqFlags⟩ = t := ht
    cases hst with
    | untested hd =>
      refine .quiet hd ?_ hev ?_
      · simp [missMachine, MissCall.settles, htests]
      · simp [MissCall.late, htests]
    | @tested t hint hd =>
      have hlate : MissCall.late p s ⟨w, k, .enqueue enqFlags⟩ = flowMissed t.deadline k.now := by
        simp [MissCall.late, htests]
      refine .store ?_ ?_ ?_
      · show (deadlineOf (flowEnqueue _ k p enqFlags).ctx).toNat ≤ _
        rw [hd]
        exact flowPredDeadline_le _ _ _ _
      · simp [missMachine, MissCall.settles, htests]
      · rw [hlate]
        refine hev.trans ?_
        rw [missEvents_append]
        split <;> rfl
  | running =>
    obtain ⟨hev, hd⟩ := flowRunning_missFree (MissCall.at p ⟨w, k, .running⟩ s) k p
    rw [MissCall.at_taskCtx] at hd
    exact .quiet hd rfl hev rfl
  | stopping runnable =>
    obtain ⟨hd, hev, -⟩ := flowStopping_misses (MissCall.at p ⟨w, k, .stopping runnable⟩ s) k p
      runnable
    rw [MissCall.at_taskCtx] at hd
    cases runnable with
    | true => exact .quiet hd rfl hev rfl
    | false =>
      refine .complete hd rfl ?_
      have hev' : missEvents (flowStopping (MissCall.at p ⟨w, k, .stopping false⟩ s) k p false).eff
          = if MissCall.late p s ⟨w, k, .stopping false⟩ then [.counted] else [] := by
        rw [hev]
        rfl
      show [.done k.now] ++ missEvents (flowStopping _ k p false).eff = _
      rw [hev']
      rfl

theorem missed_of_late {s : MissState} {c : MissCall} (h : c.late p s = true) :
    flowMissed (deadlineOf s.ctx) c.view.now = true := by
  obtain ⟨w, k, op⟩ := c
  rcases ht : MissCall.tests p s ⟨w, k, op⟩ with _ | t
  · simp [MissCall.late, ht] at h
  · rw [MissCall.late, ht, Option.any_some] at h
    cases op with
    | enqueue enqFlags =>
      have hd := deadline_of_enqueueTests ht
      rw [MissCall.at_taskCtx] at hd
      rw [← hd]
      exact h
    | running => simp [MissCall.tests] at ht
    | stopping runnable =>
      cases runnable with
      | true => simp [MissCall.tests] at ht
      | false =>
        have hs := (flowStopping_misses _ k p false).2.2 t ht
        rw [MissCall.at_taskCtx] at hs
        rw [hs]
        exact h

theorem not_late_of_no_deadline {s : MissState} (h0 : deadlineOf s.ctx = 0) (c : MissCall) :
    c.late p s = false := by
  rcases hl : c.late p s with _ | _
  · rfl
  · have hm := missed_of_late p hl
    rw [h0, flowMissed_zero] at hm
    exact absurd hm Bool.false_ne_true

end Events

section Invariant

variable (p : TaskRef)

/-- The work of an epoch is complete: it was counted, or completed by its deadline. -/
def Settled (deadline : UInt64) (seg : List MissEv) : Prop :=
  .counted ∈ seg ∨ ∃ t, .done t ∈ seg ∧ t ≤ deadline

theorem settled_done (d t : UInt64) (seg : List MissEv) :
    Settled d (seg ++ [.done t]) ↔ Settled d seg ∨ t ≤ d := by
  unfold Settled
  simp only [List.mem_append, List.mem_singleton, reduceCtorEq, or_false, MissEv.done.injEq]
  constructor
  · rintro (h | ⟨t', h | rfl, ht⟩)
    · exact Or.inl (Or.inl h)
    · exact Or.inl (Or.inr ⟨t', h, ht⟩)
    · exact Or.inr ht
  · rintro ((h | ⟨t', h, ht⟩) | ht)
    · exact Or.inl h
    · exact Or.inr ⟨t', Or.inl h, ht⟩
    · exact Or.inr ⟨t, Or.inr rfl, ht⟩

theorem settled_counted (d : UInt64) (seg : List MissEv) : Settled d (seg ++ [.counted]) :=
  Or.inl (by simp)

theorem missEpochOk_counted (d : UInt64) (seg : List MissEv) :
    MissEpochOk d (seg ++ [.counted]) ↔ ¬ Settled d seg := by
  unfold MissEpochOk Settled
  have hmem : MissEv.counted ∈ seg ↔ 0 < seg.count .counted := List.count_pos_iff.symm
  simp only [List.count_append, List.count_singleton_self, List.mem_append, List.mem_singleton,
    or_true, forall_const, reduceCtorEq, or_false, hmem, not_or, not_exists, not_and,
    UInt64.not_le]
  constructor
  · rintro ⟨h, hd⟩
    exact ⟨by omega, hd⟩
  · rintro ⟨h, hd⟩
    exact ⟨by omega, hd⟩

theorem missEpochOk_done {d t : UInt64} {seg : List MissEv} (h : .counted ∈ seg → d < t) :
    MissEpochOk d (seg ++ [.done t]) ↔ MissEpochOk d seg := by
  unfold MissEpochOk
  simp only [List.count_append, List.count_singleton, List.mem_append, List.mem_singleton,
    reduceCtorEq, or_false, MissEv.done.injEq]
  refine and_congr (by simp) ⟨fun hd hm t' ht' => hd hm t' (Or.inl ht'), ?_⟩
  rintro hd hm t' (ht' | rfl)
  · exact hd hm t' ht'
  · exact h hm

/-- What the storage knows of the current epoch. -/
structure EpochInv (s : MissState) (d : UInt64) (seg : List MissEv) : Prop where
  deadline : deadlineOf s.ctx = d
  near : d.toNat ≤ s.clock.toNat + 2 ^ 42
  settled : s.settled = true ↔ Settled d seg
  counted : .counted ∈ seg → d < s.clock

def MissInv (s : MissState) (h : List MissEv) : Prop :=
  (Epoch.current MissEv.opens h = none ∧ deadlineOf s.ctx = 0)
    ∨ ∃ d seg, Epoch.current MissEv.opens h = some (d, seg) ∧ EpochInv s d seg

theorem MissInv.late {s : MissState} {h : List MissEv} {c : MissCall} (hi : MissInv s h)
    (hc : ClockOk s c) (hl : c.late p s = true) :
    ∃ d seg, Epoch.current MissEv.opens h = some (d, seg) ∧ EpochInv s d seg
      ∧ d < c.view.now := by
  have hm := missed_of_late p hl
  rcases hi with ⟨_, h0⟩ | ⟨d, seg, hcur, he⟩
  · rw [not_late_of_no_deadline p h0] at hl
    exact absurd hl Bool.false_ne_true
  · refine ⟨d, seg, hcur, he, ?_⟩
    have hle : s.clock.toNat ≤ c.view.now.toNat := UInt64.le_iff_toNat_le.mp hc
    have hnear := he.near
    rw [he.deadline] at hm
    rw [UInt64.lt_iff_toNat_lt]
    exact lt_of_flowMissed (by omega) hm

theorem forall_counted_iff {s : MissState} {h : List MissEv} {c : MissCall} (hi : MissInv s h)
    (hc : ClockOk s c) :
    Epoch.Forall MissEv.opens MissEpochOk (h ++ if c.late p s then [.counted] else [])
      ↔ Epoch.Forall MissEv.opens MissEpochOk h ∧ NoRetest p s c := by
  unfold NoRetest
  rcases hl : c.late p s with _ | _
  · simp
  · obtain ⟨d, seg, hcur, he, -⟩ := hi.late p hc hl
    rw [if_pos rfl, Epoch.forall_snoc_of_some hcur rfl, missEpochOk_counted, ← he.settled]
    simp

theorem EpochInv.advance {s s' : MissState} {d : UInt64} {seg : List MissEv} (he : EpochInv s d seg)
    (hd : deadlineOf s'.ctx = deadlineOf s.ctx) (hs : s'.settled = s.settled)
    (hc : s.clock ≤ s'.clock) : EpochInv s' d seg := by
  have hle : s.clock.toNat ≤ s'.clock.toNat := UInt64.le_iff_toNat_le.mp hc
  refine ⟨hd.trans he.deadline, by have := he.near; omega, by rw [hs, he.settled], fun h => ?_⟩
  exact UInt64.lt_of_lt_of_le (he.counted h) hc

theorem current_done {h seg : List MissEv} {d : UInt64}
    (hcur : Epoch.current MissEv.opens h = some (d, seg)) (t : UInt64) :
    Epoch.current MissEv.opens (h ++ [.done t]) = some (d, seg ++ [.done t]) := by
  rw [Epoch.current_snoc_of_not MissEv.opens rfl, hcur]
  rfl

/-- A completion alone leaves the history as sound as it was. -/
theorem EpochInv.forall_done {s : MissState} {h seg : List MissEv} {d t : UInt64}
    (he : EpochInv s d seg) (hcur : Epoch.current MissEv.opens h = some (d, seg))
    (hc : s.clock ≤ t) : Epoch.Forall MissEv.opens MissEpochOk (h ++ [.done t])
      ↔ Epoch.Forall MissEv.opens MissEpochOk h := by
  have hdone : .counted ∈ seg → d < t := fun hm => UInt64.lt_of_lt_of_le (he.counted hm) hc
  rw [Epoch.forall_snoc_of_some hcur rfl, missEpochOk_done hdone]
  exact and_iff_left_of_imp fun hf => hf.current hcur

theorem EpochInv.done {s s' : MissState} {d : UInt64} {seg : List MissEv} (he : EpochInv s d seg)
    (hd : deadlineOf s'.ctx = deadlineOf s.ctx) (hc : s.clock ≤ s'.clock)
    (hs : s'.settled = (s.settled || decide (s'.clock ≤ d))) :
    EpochInv s' d (seg ++ [.done s'.clock]) := by
  have hle : s.clock.toNat ≤ s'.clock.toNat := UInt64.le_iff_toNat_le.mp hc
  refine ⟨hd.trans he.deadline, by have := he.near; omega, ?_, fun hm => ?_⟩
  · rw [hs, settled_done, ← he.settled]
    simp
  · exact UInt64.lt_of_lt_of_le (he.counted (by simpa using hm)) hc

theorem missInv_complete {s s' : MissState} {c : MissCall} {h : List MissEv} (hi : MissInv s h)
    (hc : ClockOk s c) (hclock : s'.clock = c.view.now)
    (hd : deadlineOf s'.ctx = deadlineOf s.ctx)
    (hs : s'.settled = (s.settled || decide (c.view.now ≤ deadlineOf s.ctx) || c.late p s)) :
    MissInv s' (h ++ (.done c.view.now :: if c.late p s then [.counted] else []))
      ∧ (Epoch.Forall MissEv.opens MissEpochOk
          (h ++ (.done c.view.now :: if c.late p s then [.counted] else []))
        ↔ Epoch.Forall MissEv.opens MissEpochOk h ∧ NoRetest p s c) := by
  rcases hi with ⟨hcur, h0⟩ | ⟨d, seg, hcur, he⟩
  · -- before the first deadline nothing is tested late
    have hl := not_late_of_no_deadline p h0 c
    rw [hl, if_neg (by simp)]
    refine ⟨Or.inl ⟨?_, hd.trans h0⟩, ?_⟩
    · rw [Epoch.current_snoc_of_not MissEv.opens rfl, hcur]
      rfl
    · rw [Epoch.forall_snoc_of_none hcur rfl]
      simp [NoRetest, hl]
  have hclk : s.clock ≤ s'.clock := by
    rw [hclock]
    exact hc
  have hcur' := current_done hcur c.view.now
  have hforall := he.forall_done hcur hc
  rcases hl : c.late p s with _ | _
  · rw [hl, Bool.or_false, he.deadline, ← hclock] at hs
    refine ⟨Or.inr ⟨d, _, hcur', ?_⟩, ?_⟩
    · rw [← hclock]
      exact he.done hd hclk hs
    · rw [if_neg (by simp), hforall]
      simp [NoRetest, hl]
  · obtain ⟨d', seg', hcur'', -, hlt⟩ := MissInv.late p (Or.inr ⟨d, seg, hcur, he⟩) hc hl
    obtain ⟨rfl, rfl⟩ : d = d' ∧ seg = seg' := by simpa [hcur] using hcur''
    rw [hl, Bool.or_true] at hs
    have happ : h ++ (.done c.view.now :: if true = true then [.counted] else [])
        = h ++ [.done c.view.now] ++ [.counted] := by simp
    rw [happ]
    have hnear : d.toNat ≤ s'.clock.toNat + 2 ^ 42 := by
      have hle := UInt64.le_iff_toNat_le.mp hclk
      have := he.near
      omega
    refine ⟨Or.inr ⟨d, seg ++ [.done c.view.now] ++ [.counted], ?_, hd.trans he.deadline, hnear,
      ?_, ?_⟩, ?_⟩
    · rw [Epoch.current_snoc_of_not MissEv.opens rfl, hcur']
      rfl
    · rw [hs]
      exact iff_of_true rfl (settled_counted d _)
    · rw [hclock]
      exact fun _ => hlt
    · rw [Epoch.forall_snoc_of_some hcur' rfl, hforall, missEpochOk_counted, settled_done,
        ← he.settled]
      simp [NoRetest, hl, hlt]

/-- Each call keeps the invariant, and keeps the history sound exactly when it tests no settled
deadline late. -/
theorem missInv_step {s : MissState} {c : MissCall} {h : List MissEv} (hc : ClockOk s c)
    (hi : MissInv s h) :
    MissInv ((missMachine p).step s c) (h ++ (missMachine p).out s c)
      ∧ (Epoch.Forall MissEv.opens MissEpochOk (h ++ (missMachine p).out s c)
        ↔ Epoch.Forall MissEv.opens MissEpochOk h ∧ NoRetest p s c) := by
  cases missStep p s c with
  | quiet hd hs ho hl =>
    rw [ho, List.append_nil]
    refine ⟨?_, by simp [NoRetest, hl]⟩
    rcases hi with ⟨hcur, h0⟩ | ⟨d, seg, hcur, he⟩
    · exact Or.inl ⟨hcur, hd.trans h0⟩
    · exact Or.inr ⟨d, seg, hcur, he.advance hd hs hc⟩
  | store hd hs ho =>
    rw [ho, ← List.append_assoc]
    refine ⟨Or.inr ⟨_, [], Epoch.current_snoc_of_opens MissEv.opens rfl _, rfl, hd, ?_, by simp⟩, ?_⟩
    · rw [hs]
      simp [Settled]
    · have hopen : MissEv.opens (.stored (deadlineOf ((missMachine p).step s c).ctx))
          = some (deadlineOf ((missMachine p).step s c).ctx) := rfl
      have hnext := Epoch.forall_snoc_of_opens (P := MissEpochOk)
        (l := h ++ if c.late p s then [.counted] else []) hopen (by simp [MissEpochOk])
      exact hnext.trans (forall_counted_iff p hi hc)
  | complete hd hs ho =>
    rw [ho]
    exact missInv_complete p hi hc rfl hd hs

/-- A task at its creation, or with no deadline stored. -/
def MissState.start (ctx : Option FlowTaskCtx) : MissState := ⟨ctx, 0, false⟩

/-- On every run of the three ops under a clock that never runs back, each stored deadline is
counted at most once, and only for work not complete by it, exactly when no call finds a deadline
past once the work under it has completed. -/
theorem missHistory_sound_iff (ctx : Option FlowTaskCtx) (h0 : deadlineOf ctx = 0)
    (calls : List MissCall) (hclock : (missMachine p).Along ClockOk (.start ctx) calls) :
    Epoch.Forall MissEv.opens MissEpochOk ((missMachine p).log (.start ctx) calls)
      ↔ (missMachine p).Along (NoRetest p) (.start ctx) calls := by
  have hi : MissInv (.start ctx) [] := Or.inl ⟨rfl, h0⟩
  have hrun := (missMachine p).log_iff_along (I := MissInv)
    (F := Epoch.Forall MissEv.opens MissEpochOk) (P := ClockOk) (Q := NoRetest p)
    (fun s c h hc hi => (missInv_step p hc hi).1) (fun s c h hc hi => (missInv_step p hc hi).2)
    calls hclock hi
  simpa [Epoch.forall_nil] using hrun

/-- A task wakes, runs and completes by its deadline, then wakes again at `now`. -/
def wakesAgain (now : UInt64) : List MissCall :=
  [⟨World.boot 2 1 fun _ => 0, Kernel.plain 1000, .enqueue 0⟩,
    ⟨World.boot 2 1 fun _ => 0, Kernel.plain 2000, .running⟩,
    ⟨World.boot 2 1 fun _ => 0, Kernel.plain 3000, .stopping false⟩,
    ⟨World.boot 2 1 fun _ => 0, Kernel.plain now, .enqueue 0⟩]

/-- A wakeup past the deadline counts a miss, though the task completed by it. -/
theorem missHistory_counts_completed :
    (missMachine 0).Along ClockOk (.start none) (wakesAgain 200000000)
      ∧ ¬ Epoch.Forall MissEv.opens MissEpochOk
        ((missMachine 0).log (.start none) (wakesAgain 200000000)) := by
  refine ⟨by decide, fun h => ?_⟩
  have hlog : (missMachine 0).log (.start none) (wakesAgain 200000000)
      = [.stored 80001000, .done 3000, .counted, .stored 200001375] := by decide
  rw [hlog] at h
  have hok := h [] (.stored 80001000) [.done 3000, .counted] [.stored 200001375] 80001000 rfl rfl
    (by decide)
  exact absurd (hok.2 (by decide) 3000 (by decide)) (by decide)

/-- A wakeup by the deadline leaves the history sound. -/
theorem missHistory_sound_by_deadline : deadlineOf none = 0
    ∧ (missMachine 0).Along ClockOk (.start none) (wakesAgain 4000)
    ∧ (Epoch.Forall MissEv.opens MissEpochOk
        ((missMachine 0).log (.start none) (wakesAgain 4000))
      ↔ (missMachine 0).Along (NoRetest 0) (.start none) (wakesAgain 4000)) :=
  ⟨rfl, by decide, missHistory_sound_iff 0 none rfl (wakesAgain 4000) (by decide)⟩

end Invariant

end ScxFlow
