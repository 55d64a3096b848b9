import ScxFlow.Proofs.Reserve

/-!
# The RED guarantee on integers

A deadline and a clock less than `2 ^ 62` apart on the ring have an exact signed distance, which
the three RED helpers compute with no word ever leaving its range.  Laxity and exceed are then the
two sides of one residual, so a reclaim that has laxity owes no exceed and pays the fixed price.
-/

namespace ScxFlow

variable {deadline now cost : UInt64} {d : ℤ}

/-- The deadline lies `d` past the clock on the ring of 64 bit readings, a quarter of it at most. -/
structure Apart (deadline now : UInt64) (d : ℤ) : Prop where
  gt : -2 ^ 62 < d
  lt : d < 2 ^ 62
  ring : ((now.toNat : ℤ) + d) % 2 ^ 64 = deadline.toNat

section Distance

theorem Apart.toNat_sub (h : Apart deadline now d) (hd : 0 ≤ d) :
    ((deadline - now).toNat : ℤ) = d := by
  obtain ⟨hgt, hlt, hring⟩ := h
  have hn := now.toNat_lt
  have hdl := deadline.toNat_lt
  rw [UInt64.toNat_sub]
  omega

theorem Apart.toNat_sub_neg (h : Apart deadline now d) (hd : d ≤ 0) :
    ((now - deadline).toNat : ℤ) = -d := by
  obtain ⟨hgt, hlt, hring⟩ := h
  have hn := now.toNat_lt
  have hdl := deadline.toNat_lt
  rw [UInt64.toNat_sub]
  omega

theorem Apart.before_iff (h : Apart deadline now d) :
    flowTimeBefore now deadline = true ↔ 0 < d := by
  have hgt := h.gt
  have hlt := h.lt
  have hback := toNat_sub_swap now deadline
  rw [flowTimeBefore_iff_sub]
  rcases le_total 0 d with hd | hd
  · have hsub := h.toNat_sub hd
    omega
  · have hsub := h.toNat_sub_neg hd
    omega

theorem Apart.eq_iff (h : Apart deadline now d) : now = deadline ↔ d = 0 := by
  rw [← UInt64.toNat_inj]
  obtain ⟨hgt, hlt, hring⟩ := h
  have hn := now.toNat_lt
  have hdl := deadline.toNat_lt
  omega

end Distance

/-- Each branch of the residual reads its distance off one unsigned difference. -/
theorem Apart.left_toInt (h : Apart deadline now d) :
    (if flowTimeBefore now deadline then (deadline - now).toInt64
      else if now = deadline then 0 else -(now - deadline).toInt64).toInt = d := by
  have hgt := h.gt
  have hlt := h.lt
  by_cases hb : flowTimeBefore now deadline = true
  · have hd := h.before_iff.mp hb
    have hsub := h.toNat_sub hd.le
    rw [if_pos hb, toInt_toInt64_of_lt (by omega), hsub]
  rw [if_neg hb]
  by_cases he : now = deadline
  · rw [if_pos he, h.eq_iff.mp he]
    rfl
  · have hd : d ≤ 0 := not_lt.mp (mt h.before_iff.mpr hb)
    have hsub := h.toNat_sub_neg hd
    rw [if_neg he, Int64.toInt_neg, toInt_toInt64_of_lt (by omega), hsub, neg_neg]
    exact bmod_of_small (by omega) (by omega)

theorem Apart.residual_toInt (h : Apart deadline now d) (hd : deadline ≠ 0)
    (hc : cost.toNat ≤ 20000000) : (flowRedResidual deadline now cost).toInt = d - cost.toNat := by
  have hgt := h.gt
  have hlt := h.lt
  unfold flowRedResidual
  rw [if_neg hd]
  simp only
  rw [Int64.toInt_sub, h.left_toInt, toInt_toInt64_of_lt (by omega)]
  exact bmod_of_small (by omega) (by omega)

theorem toNat_toUInt64_of_nonneg {x : Int64} (h : 0 ≤ x.toInt) :
    (x.toUInt64.toNat : ℤ) = x.toInt := by
  have hcond := BitVec.toInt_eq_toNat_cond x.toBitVec
  have hlt := x.toBitVec.isLt
  change x.toInt = _ at hcond
  change (x.toBitVec.toNat : ℤ) = x.toInt
  split_ifs at hcond <;> omega

section Exceed
variable {resid : Int64} {tol : UInt64} (hlo : -2 ^ 63 < resid.toInt)
  (hhi : resid.toInt + tol.toNat < 2 ^ 63) (htol : tol.toNat < 2 ^ 63)
include hlo hhi htol

theorem sum_toInt : (resid + tol.toInt64).toInt = resid.toInt + tol.toNat := by
  rw [Int64.toInt_add, toInt_toInt64_of_lt htol]
  exact bmod_of_small (by omega) (by omega)

theorem neg_sum_toInt : (-(resid + tol.toInt64)).toInt = -(resid.toInt + tol.toNat) := by
  rw [Int64.toInt_neg, sum_toInt hlo hhi htol]
  exact bmod_of_small (by omega) (by omega)

/-- The exceed is the negative part of residual and tolerance. -/
theorem flowRedExceed_toNat :
    ((flowRedExceed resid tol).toNat : ℤ) = max 0 (-(resid.toInt + tol.toNat)) := by
  have hsum := sum_toInt hlo hhi htol
  have hneg := neg_sum_toInt hlo hhi htol
  unfold flowRedExceed
  simp only [ge_iff_le, Int64.le_iff_toInt_le, hsum, Int64.toInt_zero]
  by_cases hs : 0 ≤ resid.toInt + tol.toNat
  · rw [if_pos hs]
    simp
    omega
  · rw [if_neg hs, toNat_toUInt64_of_nonneg (by omega), hneg]
    omega

end Exceed

theorem Apart.laxity_toNat (h : Apart deadline now d) (hd : deadline ≠ 0) (cost : UInt64) :
    ((flowRedLaxity deadline now cost).toNat : ℤ) = max 0 (d - cost.toNat) := by
  unfold flowRedLaxity
  rw [if_neg hd]
  by_cases hpast : d < 0
  · have hb : flowTimeBefore now deadline = false := by
      rw [← Bool.not_eq_true, h.before_iff]
      omega
    have hne : now ≠ deadline := fun he => by
      have := h.eq_iff.mp he
      omega
    simp [hb, hne]
    omega
  · have hsub := h.toNat_sub (not_lt.mp hpast)
    have hahead : ¬((!flowTimeBefore now deadline && decide (now ≠ deadline)) = true) := by
      rw [Bool.and_eq_true, Bool.not_eq_true', decide_eq_true_iff, ← Bool.not_eq_true, h.before_iff,
        ne_eq, h.eq_iff]
      omega
    rw [if_neg hahead]
    simp only [UInt64.lt_iff_toNat_lt]
    split_ifs with hlt
    · simp
      omega
    · rw [toNat_sub_of_le (not_lt.mp hlt)]
      omega

section Reclaim

/-- The outcome of one candidate at a given exceed. -/
def reclaimOutcome (cell : UInt64) (t : FlowReclaimTail) (exceed : UInt64) : Option UInt64 :=
  if t.fits then
    if flowRedReclaimOk t.credit exceed t.laxity then flowCreditConsume cell exceed
    else if t.tiersEmpty then some cell else none
  else none

/-- The exceed of a candidate at the tolerance of one latency verdict. -/
def FlowReclaimTail.exceedAt (t : FlowReclaimTail) (isCrit : Bool) : UInt64 :=
  flowRedExceed (flowRedResidual t.rctx.deadline t.now (reclaimCost t.rctx)) (flowRedTol isCrit)

theorem reclaimOutcome_eq (cell : UInt64) (t : FlowReclaimTail) :
    flowReclaimCandidateOk cell t = reclaimOutcome cell t (flowReclaimExceed t.rctx t.now) :=
  flowReclaimCandidateOk_eq cell t

/-- What is asked of the three helpers: every signed word on the way is exact, and the laxity and
the exceed are the positive part of the residual and the negative part past the tolerance. -/
structure RedExact (deadline now cost : UInt64) (d : ℤ) (isCrit : Bool) : Prop where
  left : (if flowTimeBefore now deadline then (deadline - now).toInt64
    else if now = deadline then 0 else -(now - deadline).toInt64).toInt = d
  residual : (flowRedResidual deadline now cost).toInt = d - cost.toNat
  sum : (flowRedResidual deadline now cost + (flowRedTol isCrit).toInt64).toInt
    = d - cost.toNat + (flowRedTol isCrit).toNat
  negated : (-(flowRedResidual deadline now cost + (flowRedTol isCrit).toInt64)).toInt
    = -(d - cost.toNat + (flowRedTol isCrit).toNat)
  exceed : ((flowRedExceed (flowRedResidual deadline now cost) (flowRedTol isCrit)).toNat : ℤ)
    = max 0 (-(d - cost.toNat + (flowRedTol isCrit).toNat))
  laxity : ((flowRedLaxity deadline now cost).toNat : ℤ) = max 0 (d - cost.toNat)
  apart : flowRedLaxity deadline now cost = 0
    ∨ flowRedExceed (flowRedResidual deadline now cost) (flowRedTol isCrit) = 0

theorem Apart.redExact (h : Apart deadline now d) (hd : deadline ≠ 0) (hc : cost.toNat ≤ 20000000)
    (isCrit : Bool) : RedExact deadline now cost d isCrit := by
  have hres := h.residual_toInt hd hc
  have htol := flowRedTol_le isCrit
  have hgt := h.gt
  have hlt := h.lt
  have hlo : -2 ^ 63 < (flowRedResidual deadline now cost).toInt := by omega
  have hhi : (flowRedResidual deadline now cost).toInt + (flowRedTol isCrit).toNat < 2 ^ 63 := by
    omega
  have hexc := flowRedExceed_toNat hlo hhi (by omega)
  have hlax := h.laxity_toNat hd cost
  rw [hres] at hexc
  refine ⟨h.left_toInt, hres, ?_, ?_, hexc, hlax, ?_⟩
  · rw [sum_toInt hlo hhi (by omega), hres]
  · rw [neg_sum_toInt hlo hhi (by omega), hres]
  · rw [← UInt64.toNat_inj, ← UInt64.toNat_inj, UInt64.toNat_zero]
    omega

/-- A reclaim with laxity has no exceed at either tolerance. -/
theorem FlowReclaimTail.exceedAt_eq_zero {t : FlowReclaimTail}
    (h : Apart t.rctx.deadline t.now d) (hlax : t.laxity ≠ 0) (isCrit : Bool) :
    t.exceedAt isCrit = 0 := by
  have hd : t.rctx.deadline ≠ 0 := (flowRedLaxity_ne_zero.mp hlax).1
  rcases (h.redExact hd (reclaimCost_le t.rctx) isCrit).apart with hzero | hzero
  · exact absurd hzero hlax
  · exact hzero

/-- RED arithmetic is exact on deadlines less than `2 ^ 62` from the clock, and there a reclaim
that passes the laxity test has no exceed at any tolerance, comes out the same under each, and
takes exactly the fixed price from the credit when it is funded. -/
theorem red_exact_and_reclaim_price :
    (∀ (deadline now cost : UInt64) (d : ℤ) (isCrit : Bool), deadline ≠ 0 →
      cost.toNat ≤ 20000000 → Apart deadline now d → RedExact deadline now cost d isCrit)
    ∧ ∀ (cell : UInt64) (t : FlowReclaimTail) (d : ℤ), Apart t.rctx.deadline t.now d →
      t.laxity ≠ 0 →
        flowReclaimExceed t.rctx t.now = 0
        ∧ (∀ isCrit, t.exceedAt isCrit = 0)
        ∧ (∀ isCrit, reclaimOutcome cell t (t.exceedAt isCrit) = flowReclaimCandidateOk cell t)
        ∧ ∀ c, flowReclaimCandidateOk cell t = some c → t.funded = true →
          c.toNat + 256000 = cell.toNat := by
  refine ⟨fun deadline now cost d isCrit hd hc h => h.redExact hd hc isCrit, ?_⟩
  intro cell t d h hlax
  have hexc : flowReclaimExceed t.rctx t.now = 0 := t.exceedAt_eq_zero h hlax _
  have hat := fun isCrit => FlowReclaimTail.exceedAt_eq_zero h hlax isCrit
  refine ⟨hexc, hat, fun isCrit => ?_, fun c hc hfunded => ?_⟩
  · rw [hat, reclaimOutcome_eq, hexc]
  · obtain ⟨-, hpaid⟩ := flowReclaimCandidateOk_eq_some.mp hc
    rw [if_pos hfunded] at hpaid
    obtain ⟨-, hle, rfl⟩ := hpaid
    have hneed : t.need = flowRedEmaxNs := by
      unfold FlowReclaimTail.need flowCreditNeed
      rw [hexc]
      rfl
    rw [hneed, toNat_sub_of_le (UInt64.le_iff_toNat_le.mp hle)]
    exact Nat.sub_add_cancel (UInt64.le_iff_toNat_le.mp hle)

/-- A reject 5 ms before its deadline, with a credit of 300 us. -/
def FlowReclaimTail.early : FlowReclaimTail :=
  ⟨{ FlowTaskCtx.fresh with deadline := 5000000 }, .plain 0, 0, 0, 300000, true⟩

theorem red_exact_and_reclaim_price_early :
    RedExact 10 0xfffffffffffffffb 1 15 true
    ∧ flowReclaimExceed FlowReclaimTail.early.rctx FlowReclaimTail.early.now = 0
    ∧ ∀ c, flowReclaimCandidateOk 300000 .early = some c → FlowReclaimTail.early.funded = true →
      c.toNat + 256000 = 300000 := by
  have h := red_exact_and_reclaim_price.2 300000 .early 5000000 ⟨by decide, by decide, rfl⟩
    (by decide)
  exact ⟨red_exact_and_reclaim_price.1 _ _ _ 15 true (by decide) (by decide)
    ⟨by decide, by decide, rfl⟩, h.1, h.2.2.2⟩

end Reclaim

end ScxFlow
