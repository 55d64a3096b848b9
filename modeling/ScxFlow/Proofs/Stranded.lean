import ScxFlow.Lib.Arc
import ScxFlow.System
import ScxFlow.Proofs.EnqueueShape
import ScxFlow.Proofs.Red
import ScxFlow.Proofs.Words

/-!
# When a queued reject can still be reclaimed

Nothing refreshes a queued reject, so each test of its reclaim holds on a window of the clock: the
laxity and the rebuilt key on windows that close, the age and the credit on windows that open.  A
later reading passes exactly when the windows meet within the readings the clock has left, and a
reject without state or deadline has no such window (`reclaim_reachable_iff`).
-/

namespace ScxFlow

section Differences

theorem flowTimeBefore_iff_sub {a b : UInt64} :
    flowTimeBefore a b = true ↔ 2 ^ 63 ≤ (a - b).toNat := by
  rw [flowTimeBefore_eq, Serial.before, BitVec.msb_eq_true_iff_two_mul_ge]
  show 2 ^ 64 ≤ 2 * (a - b).toNat ↔ _
  omega

theorem toNat_sub_swap (a b : UInt64) : (a - b).toNat = (2 ^ 64 - (b - a).toNat) % 2 ^ 64 := by
  have ha := a.toNat_lt
  have hb := b.toNat_lt
  rw [UInt64.toNat_sub, UInt64.toNat_sub]
  omega

theorem flowRedLaxity_ne_zero {deadline now cost : UInt64} : flowRedLaxity deadline now cost ≠ 0
    ↔ deadline ≠ 0 ∧ cost.toNat < (deadline - now).toNat ∧ (deadline - now).toNat ≤ 2 ^ 63 := by
  have hback := toNat_sub_swap now deadline
  have hx := (deadline - now).toNat_lt
  have hbefore := flowTimeBefore_iff_sub (a := now) (b := deadline)
  unfold flowRedLaxity
  by_cases hd : deadline = 0
  · simp [hd]
  rw [if_neg hd]
  rcases hb : flowTimeBefore now deadline with _ | _
  · have hfar : ¬ (cost.toNat < (deadline - now).toNat ∧ (deadline - now).toNat ≤ 2 ^ 63) := by
      rw [hb] at hbefore
      simp only [Bool.false_eq_true, false_iff] at hbefore
      omega
    refine iff_of_false (not_not.mpr ?_) (fun h => hfar h.2)
    by_cases heq : now = deadline
    · simp [heq]
    · simp [heq]
  · have hnear := hbefore.mp hb
    simp only [Bool.not_true, Bool.false_and, Bool.false_eq_true, ↓reduceIte, hd, ne_eq,
      not_false_eq_true, true_and, UInt64.lt_iff_toNat_lt]
    split_ifs with hlt
    · refine iff_of_false (by simp) ?_
      omega
    · rw [← UInt64.toNat_inj, toNat_sub_of_le (by omega)]
      simp
      omega

theorem flowReclaimKeyOk_iff {rctx : FlowTaskCtx} {rdl now : UInt64} :
    flowReclaimKeyOk rctx rdl now = true ↔ (flowReclaimKey rctx rdl - now).toNat < 2 ^ 63 := by
  unfold flowReclaimKeyOk
  simp only
  generalize flowReclaimKey rctx rdl = key
  have hbefore := flowTimeBefore_iff_sub (a := key) (b := now)
  split_ifs with h
  · have hfar := hbefore.mp h.2
    simp only [false_iff]
    omega
  · simp only [true_iff]
    by_contra hfar
    have hb := hbefore.mpr (by omega)
    refine h ⟨?_, hb⟩
    rintro rfl
    simp at hb

theorem flowReclaimIsAged_iff {waitAt now : UInt64} : flowReclaimIsAged waitAt now = true
    ↔ waitAt ≠ 0 ∧ flowPeriodNs.toNat < (now - waitAt).toNat ∧ (now - waitAt).toNat < 2 ^ 63 := by
  have hbefore := flowTimeBefore_iff_sub (a := now) (b := waitAt)
  unfold flowReclaimIsAged
  by_cases h0 : waitAt = 0
  · simp [h0]
  by_cases heq : waitAt = now
  · subst heq
    simp
  rw [if_neg (by simp [h0, heq])]
  rcases hb : flowTimeBefore now waitAt with _ | _
  · rw [hb] at hbefore
    simp only [Bool.false_eq_true, false_iff] at hbefore
    simp only [Bool.false_eq_true, ↓reduceIte, decide_eq_true_eq, gt_iff_lt,
      UInt64.lt_iff_toNat_lt, h0, ne_eq, not_false_eq_true, true_and]
    omega
  · have hfar := hbefore.mp hb
    simp only [↓reduceIte, Bool.false_eq_true, false_iff]
    omega

theorem flowRedResidual_eq {deadline now cost : UInt64} (hd : deadline ≠ 0) :
    flowRedResidual deadline now cost = (deadline - now - cost).toInt64 := by
  unfold flowRedResidual
  simp only [if_neg hd]
  rw [UInt64.toInt64_sub (deadline - now) cost]
  congr 1
  split_ifs with hb heq
  · rfl
  · rw [heq, UInt64.sub_self]
    rfl
  · rw [← UInt64.toInt64_neg, UInt64.neg_sub]

theorem flowRedExceed_eq (x tol : UInt64) : flowRedExceed x.toInt64 tol
    = if (x + tol).toNat < 2 ^ 63 then 0 else -(x + tol) := by
  unfold flowRedExceed
  simp only
  rw [← UInt64.toInt64_add]
  generalize x + tol = y
  have hneg := flowTimeBefore_iff_sub (a := y) (b := 0)
  unfold flowTimeBefore at hneg
  rw [UInt64.sub_zero, decide_eq_true_iff] at hneg
  have hpos : y.toInt64 ≥ 0 ↔ y.toNat < 2 ^ 63 := by
    rw [ge_iff_le, ← Int64.not_lt, hneg]
    omega
  simp only [hpos]
  split_ifs
  · rfl
  · rfl

/-- The greatest distance ahead that still reads as ahead. -/
def halfRange : UInt64 := 0x7fffffffffffffff

theorem halfRange_toNat : halfRange.toNat = 2 ^ 63 - 1 := rfl

/-- The price of one reclaim. -/
def reclaimCost (t : FlowTaskCtx) : UInt64 := flowRedCost t.avgNs.toUInt64 t.sliceNs

/-- The tolerance of one reclaim. -/
def reclaimTol (t : FlowTaskCtx) : UInt64 :=
  let rtw := if t.weight = 0 then flowWeightBase.toUInt32 else t.weight
  let reff := flowTaskEffectiveWeight rtw t.hintW
  flowRedTol (flowIsLat t.avgNs.toUInt64 t.devNs.toUInt64 t.hintUs 0 0 reff)

theorem flowReclaimExceed_eq {t : FlowTaskCtx} (hd : t.deadline ≠ 0) (now : UInt64) :
    flowReclaimExceed t now
      = if (t.deadline - now - reclaimCost t + reclaimTol t).toNat < 2 ^ 63 then 0
        else -(t.deadline - now - reclaimCost t + reclaimTol t) := by
  show flowRedExceed (flowRedResidual t.deadline now (reclaimCost t)) (reclaimTol t) = _
  rw [flowRedResidual_eq hd, flowRedExceed_eq]

/-- Where the credit covers the exceed: the credit past the signed word is not negative. -/
theorem exceed_le_iff {t : FlowTaskCtx} (hd : t.deadline ≠ 0) (now credit : UInt64) :
    flowReclaimExceed t now ≤ credit
      ↔ (t.deadline - reclaimCost t + reclaimTol t + credit - now).toNat
        ≤ (flowSatAdd halfRange credit).toNat := by
  have hword : t.deadline - reclaimCost t + reclaimTol t + credit - now
      = t.deadline - now - reclaimCost t + reclaimTol t + credit := by grind
  rw [flowReclaimExceed_eq hd, hword, flowSatAdd_toNat]
  generalize t.deadline - now - reclaimCost t + reclaimTol t = y
  have hy := y.toNat_lt
  have hc := credit.toNat_lt
  rw [UInt64.le_iff_toNat_le, UInt64.toNat_add, halfRange_toNat]
  split_ifs with h
  · simp
    omega
  · have hneg : (-y).toNat = (2 ^ 64 - y.toNat) % 2 ^ 64 := UInt64.toNat_neg y
    rw [hneg]
    omega

end Differences

section Windows

variable (t : FlowTaskCtx)

/-- The readings past `now` up to `last`. -/
def clockArc (now last : UInt64) : Arc 64 :=
  .after now.toBitVec 1 (last - now).toBitVec

/-- The readings that leave laxity. -/
def laxityArc : Arc 64 :=
  .before t.deadline.toBitVec (reclaimCost t + 1).toBitVec (halfRange + 1).toBitVec

/-- The readings that find the key fresh. -/
def keyArc : Arc 64 :=
  .before (flowReclaimKey t t.deadline).toBitVec 0 halfRange.toBitVec

/-- The readings that find the wait aged. -/
def ageArc : Arc 64 :=
  .after t.waitAt.toBitVec (flowPeriodNs + 1).toBitVec halfRange.toBitVec

/-- The readings at which `credit` covers the exceed. -/
def creditArc (credit : UInt64) : Arc 64 :=
  .before (t.deadline - reclaimCost t + reclaimTol t + credit).toBitVec 0
    (flowSatAdd halfRange credit).toBitVec

end Windows

section Readings

variable {t : FlowTaskCtx} {now : UInt64}

theorem clockArc_has {now last n : UInt64} (h : now < last) :
    (clockArc now last).Has n.toBitVec ↔ now < n ∧ n ≤ last :=
  Arc.has_after_iff_lt (UInt64.lt_iff_toBitVec_lt.mp h)

theorem reclaimCost_le (t : FlowTaskCtx) : (reclaimCost t).toNat ≤ 20000000 := by
  unfold reclaimCost
  rw [flowRedCost_toNat]
  split_ifs <;> omega

theorem laxityArc_has (hd : t.deadline ≠ 0) : (laxityArc t).Has now.toBitVec
    ↔ flowRedLaxity t.deadline now (reclaimCost t) ≠ 0 := by
  have hcost := reclaimCost_le t
  have hone : (reclaimCost t + 1).toNat = (reclaimCost t).toNat + 1 := by
    rw [UInt64.toNat_add]
    simp
    omega
  have hhalf : (halfRange + 1).toNat = 2 ^ 63 := rfl
  rw [flowRedLaxity_ne_zero, laxityArc, Arc.has_before]
  · simp only [hd, ne_eq, not_false_eq_true, true_and]
    show (reclaimCost t + 1).toNat ≤ (t.deadline - now).toNat
      ∧ (t.deadline - now).toNat ≤ (halfRange + 1).toNat ↔ _
    omega
  · show (reclaimCost t + 1).toNat ≤ (halfRange + 1).toNat
    omega

theorem keyArc_has :
    (keyArc t).Has now.toBitVec ↔ flowReclaimKeyOk t t.deadline now = true := by
  rw [flowReclaimKeyOk_iff, keyArc, Arc.has_before]
  · show 0 ≤ (flowReclaimKey t t.deadline - now).toNat
      ∧ (flowReclaimKey t t.deadline - now).toNat ≤ halfRange.toNat ↔ _
    rw [halfRange_toNat]
    omega
  · exact BitVec.le_def.mpr (Nat.zero_le _)

theorem ageArc_has (hw : t.waitAt ≠ 0) :
    (ageArc t).Has now.toBitVec ↔ flowReclaimIsAged t.waitAt now = true := by
  have hperiod : (flowPeriodNs + 1).toNat = flowPeriodNs.toNat + 1 := rfl
  rw [flowReclaimIsAged_iff, ageArc, Arc.has_after]
  · show (flowPeriodNs + 1).toNat ≤ (now - t.waitAt).toNat
      ∧ (now - t.waitAt).toNat ≤ halfRange.toNat ↔ _
    rw [halfRange_toNat]
    simp only [hw, ne_eq, not_false_eq_true, true_and]
    omega
  · show (flowPeriodNs + 1).toNat ≤ halfRange.toNat
    decide

theorem creditArc_has (hd : t.deadline ≠ 0) (credit : UInt64) :
    (creditArc t credit).Has now.toBitVec ↔ flowReclaimExceed t now ≤ credit := by
  rw [exceed_le_iff hd, creditArc, Arc.has_before]
  · show 0 ≤ (t.deadline - reclaimCost t + reclaimTol t + credit - now).toNat
      ∧ (t.deadline - reclaimCost t + reclaimTol t + credit - now).toNat
        ≤ (flowSatAdd halfRange credit).toNat ↔ _
    omega
  · exact BitVec.le_def.mpr (Nat.zero_le _)

end Readings

section OneTest

theorem flowCreditConsume_isSome {cell exceed : UInt64} (hr : flowRedEmaxNs ≤ cell)
    (he : exceed ≤ cell) : (flowCreditConsume cell exceed).isSome = true := by
  unfold flowCreditConsume
  simp only
  have hneed : ¬ cell < (if exceed ≠ 0 then exceed else flowRedEmaxNs) := by
    rw [UInt64.not_lt]
    split
    · exact he
    · exact hr
  rw [if_neg hneed, if_neg (UInt64.not_lt.mpr hr)]
  rfl

theorem flowRedReclaimOk_iff (saved exceed : UInt64) {laxity : UInt64} (hl : laxity ≠ 0) :
    flowRedReclaimOk saved exceed laxity = true ↔ flowRedEmaxNs ≤ saved ∧ exceed ≤ saved := by
  unfold flowRedReclaimOk
  simp only [hl, ↓reduceIte]
  split_ifs with h₁ h₂
  · simp only [false_iff, not_and]
    intro h
    exact absurd h (UInt64.not_le.mpr h₁)
  · simp only [false_iff, not_and]
    intro _ h
    exact absurd h (UInt64.not_le.mpr h₂)
  · simp only [true_iff]
    exact ⟨UInt64.not_lt.mp h₁, UInt64.not_lt.mp h₂⟩

/-- A candidate on an allowed CPU passes on its laxity and its key, and under load on its age and
the credit too. -/
theorem flowReclaimCandidateOk_iff {t : FlowTaskCtx} {ts : TaskStruct} {cpu : ℤ}
    {now credit : UInt64} (tiersEmpty : Bool) (hm : flowMaskOk cpu ts = true) :
    (flowReclaimCandidateOk credit ⟨t, ts, cpu, now, credit, tiersEmpty⟩).isSome = true
      ↔ flowRedLaxity t.deadline now (reclaimCost t) ≠ 0
        ∧ flowReclaimKeyOk t t.deadline now = true
        ∧ (tiersEmpty = false → flowReclaimIsAged t.waitAt now = true ∧ flowRedEmaxNs ≤ credit
          ∧ flowReclaimExceed t now ≤ credit) := by
  unfold flowReclaimCandidateOk
  show (if flowRedLaxity t.deadline now (reclaimCost t) = 0 then none else _).isSome = true ↔ _
  by_cases hl : flowRedLaxity t.deadline now (reclaimCost t) = 0
  · simp [hl]
  rw [if_neg hl]
  have hfund := flowRedReclaimOk_iff credit (flowReclaimExceed t now) hl
  have hpay : flowRedReclaimOk credit (flowReclaimExceed t now)
      (flowRedLaxity t.deadline now (reclaimCost t)) = true →
      (flowCreditConsume credit (flowReclaimExceed t now)).isSome = true := by
    intro h
    obtain ⟨hr, he⟩ := hfund.mp h
    exact flowCreditConsume_isSome hr he
  rw [← hfund]
  simp only [hm, Bool.not_true, Bool.false_eq_true, ↓reduceIte, hl, ne_eq, not_false_eq_true,
    true_and]
  show (if !tiersEmpty && !flowReclaimIsAged t.waitAt now then none
    else if !flowReclaimKeyOk t t.deadline now then none
    else if !tiersEmpty && !flowRedReclaimOk credit (flowReclaimExceed t now)
      (flowRedLaxity t.deadline now (reclaimCost t)) then none
    else if flowRedReclaimOk credit (flowReclaimExceed t now)
      (flowRedLaxity t.deadline now (reclaimCost t))
      then flowCreditConsume credit (flowReclaimExceed t now) else some credit).isSome = true ↔ _
  generalize flowRedReclaimOk credit (flowReclaimExceed t now)
    (flowRedLaxity t.deadline now (reclaimCost t)) = funded at hpay
  generalize flowReclaimIsAged t.waitAt now = aged
  cases flowReclaimKeyOk t t.deadline now
  · simp
  · cases tiersEmpty <;> cases aged <;> cases funded <;> simp_all

end OneTest

/-- The reclaim of `q` on `cpu` passes at `now`, nothing else having changed. -/
def acceptedAt (w : World) (k : Kernel) (cpu : ℤ) (q : TaskRef) (tiersEmpty : Bool)
    (now : UInt64) : Prop :=
  (flowReclaimTest { k with now := now } w cpu tiersEmpty q).isSome = true

/-- From the reading `now` of a clock that ends at `last`, some later reading passes: with the tiers
empty, and under load too once the wait is aged and the credit covers the reserve. -/
structure NotStranded (w : World) (k : Kernel) (cpu : ℤ) (q : TaskRef) (now last : UInt64) :
    Prop where
  idle : ∃ n, now < n ∧ n ≤ last ∧ acceptedAt w k cpu q true n
  busy : ∀ t, w.taskCtx q = some t → flowReclaimIsAged t.waitAt now = true →
    flowRedEmaxNs ≤ w.reclaimCredit → ∃ n, now < n ∧ n ≤ last ∧ acceptedAt w k cpu q false n

/-- The reject has state with a deadline, and its windows meet within the readings left: those of
the laxity and the key, and under load those of the age and the credit with them. -/
structure WindowsMeet (w : World) (q : TaskRef) (t : FlowTaskCtx) (now last : UInt64) : Prop where
  state : w.taskCtx q = some t
  deadline : t.deadline ≠ 0
  readings : now < last
  idle : Arc.Meet [clockArc now last, laxityArc t, keyArc t]
  busy : flowReclaimIsAged t.waitAt now = true → flowRedEmaxNs ≤ w.reclaimCredit →
    Arc.Meet [clockArc now last, laxityArc t, keyArc t, ageArc t, creditArc t w.reclaimCredit]

section Reach

variable {w : World} {k : Kernel} {cpu : ℤ} {q : TaskRef} {t : FlowTaskCtx} {now last : UInt64}

theorem acceptedAt_iff (hm : flowMaskOk cpu (k.task q) = true) (ht : w.taskCtx q = some t)
    (hd : t.deadline ≠ 0) (tiersEmpty : Bool) (n : UInt64) : acceptedAt w k cpu q tiersEmpty n
      ↔ (laxityArc t).Has n.toBitVec ∧ (keyArc t).Has n.toBitVec
        ∧ (tiersEmpty = false → flowReclaimIsAged t.waitAt n = true
          ∧ flowRedEmaxNs ≤ w.reclaimCredit
          ∧ (creditArc t w.reclaimCredit).Has n.toBitVec) := by
  unfold acceptedAt flowReclaimTest
  rw [ht, laxityArc_has hd, keyArc_has, creditArc_has hd]
  exact flowReclaimCandidateOk_iff tiersEmpty hm

theorem not_acceptedAt (h : ∀ t, w.taskCtx q = some t → t.deadline = 0) (tiersEmpty : Bool)
    (n : UInt64) : ¬ acceptedAt w k cpu q tiersEmpty n := by
  unfold acceptedAt flowReclaimTest
  split
  · simp
  · rename_i t ht
    simp [flowReclaimCandidateOk, h t ht, flowRedLaxity]

theorem exists_word {P : UInt64 → Prop} : (∃ n, P n) ↔ ∃ n : BitVec 64, P ⟨n⟩ :=
  ⟨fun ⟨n, h⟩ => ⟨n.toBitVec, h⟩, fun ⟨n, h⟩ => ⟨⟨n⟩, h⟩⟩

theorem idle_iff (hm : flowMaskOk cpu (k.task q) = true) (ht : w.taskCtx q = some t)
    (hd : t.deadline ≠ 0) (hnow : now < last) :
    (∃ n, now < n ∧ n ≤ last ∧ acceptedAt w k cpu q true n)
      ↔ Arc.Meet [clockArc now last, laxityArc t, keyArc t] := by
  rw [← Arc.exists_has_iff (by simp), exists_word]
  refine exists_congr fun n => ?_
  rw [acceptedAt_iff hm ht hd, ← and_assoc, ← clockArc_has hnow]
  simp

theorem busy_iff (hm : flowMaskOk cpu (k.task q) = true) (ht : w.taskCtx q = some t)
    (hd : t.deadline ≠ 0) (hnow : now < last) (hw : t.waitAt ≠ 0)
    (hc : flowRedEmaxNs ≤ w.reclaimCredit) :
    (∃ n, now < n ∧ n ≤ last ∧ acceptedAt w k cpu q false n) ↔ Arc.Meet
      [clockArc now last, laxityArc t, keyArc t, ageArc t, creditArc t w.reclaimCredit] := by
  rw [← Arc.exists_has_iff (by simp), exists_word]
  refine exists_congr fun n => ?_
  rw [acceptedAt_iff hm ht hd, ← and_assoc, ← clockArc_has hnow, ← ageArc_has hw]
  simp only [hc, true_and, forall_const, List.mem_cons, List.not_mem_nil, or_false,
    forall_eq_or_imp, forall_eq]

end Reach

/-- A view at `now` where every task may run on CPU 1 alone, though it was last on CPU 0. -/
def Kernel.onCpuOne (now : UInt64) : Kernel :=
  { Kernel.plain now with
    task := fun p => { TaskStruct.plain p with cpusPtr := fun cpu => decide (cpu = 1) } }

/-- A task is enabled, and wakes after its mask moved off the CPU it was last on. -/
def missesGate : List Call :=
  [⟨Kernel.plain 1000, .enable 0⟩, ⟨Kernel.onCpuOne 2000, .enqueue 0 0⟩]

/-- A reject with its deadline and its ledger ahead of the clock. -/
def aheadReject : FlowTaskCtx :=
  { FlowTaskCtx.fresh with vruntime := 100000000, deadline := 80001000, waitAt := 1000 }

/-- One such reject in the queue. -/
def World.aheadReject : World :=
  { (World.boot 2 1 fun _ => 0).setDsq flowOverflowDsq [⟨0, 16256⟩] with
    taskCtx := Function.update (fun _ => none) 0 (some ScxFlow.aheadReject) }

end ScxFlow
