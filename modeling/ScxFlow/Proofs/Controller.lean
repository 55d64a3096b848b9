import ScxFlow.Lib.Settle
import ScxFlow.Proofs.TaskBounds

/-!
# The slice controller never rings

One step of the controller moves the slice towards one side by at most a quarter, and not at all
within a deadband that grows with the slice.  So a constant lateness drives the slice to the floor
or leaves it, and a constant earliness drives it up until the deadband or the quantum stops it.
-/

open Function

namespace ScxFlow

/-- The deadband of a slice. -/
def bandOf (cur : ℕ) : ℕ := max (cur / 32) 8000

/-- The step for an amount past the deadband. -/
def stepOf (cur amount : ℕ) : ℕ := min (min (amount / 8) 1000000) (cur / 2) / 2

/-- The slice after a lateness. -/
def shrunk (cur exceed : ℕ) : ℕ :=
  if exceed ≤ bandOf cur then cur else max 10000 (cur - stepOf cur exceed)

/-- The slice after an earliness. -/
def grown (cur slack : ℕ) : ℕ :=
  if slack ≤ bandOf cur then cur else min 1000000 (cur + stepOf cur slack)

section Values

variable {cur : ℕ}

theorem bandOf_mono {cur' : ℕ} (h : cur ≤ cur') : bandOf cur ≤ bandOf cur' := by
  unfold bandOf
  omega

/-- Past the deadband the step is at least half a microsecond. -/
theorem stepOf_pos (hc : 10000 ≤ cur) {amount : ℕ} (h : bandOf cur < amount) :
    500 ≤ stepOf cur amount := by
  unfold bandOf at h
  unfold stepOf
  omega

theorem stepOf_quarter (cur amount : ℕ) : 4 * stepOf cur amount ≤ cur := by
  unfold stepOf
  omega

theorem stepOf_mono (cur : ℕ) {amount amount' : ℕ} (h : amount ≤ amount') :
    stepOf cur amount ≤ stepOf cur amount' := by
  unfold stepOf
  omega

theorem shrunk_le (hc : 10000 ≤ cur) (exceed : ℕ) : shrunk cur exceed ≤ cur := by
  unfold shrunk
  split
  · exact le_rfl
  · exact max_le hc (Nat.sub_le _ _)

theorem le_grown (hc : cur ≤ 1000000) (slack : ℕ) : cur ≤ grown cur slack := by
  unfold grown
  split
  · exact le_rfl
  · exact le_min hc (Nat.le_add_right _ _)

theorem shrunk_anti (hc : 10000 ≤ cur) {exceed exceed' : ℕ} (h : exceed ≤ exceed') :
    shrunk cur exceed' ≤ shrunk cur exceed := by
  by_cases hband : exceed ≤ bandOf cur
  · have hle := shrunk_le hc exceed'
    unfold shrunk at hle ⊢
    rwa [if_pos hband]
  · have hstep := stepOf_mono cur h
    unfold shrunk
    rw [if_neg hband, if_neg (by omega)]
    omega

theorem grown_mono (hc : cur ≤ 1000000) {slack slack' : ℕ} (h : slack ≤ slack') :
    grown cur slack ≤ grown cur slack' := by
  by_cases hband : slack ≤ bandOf cur
  · have hle := le_grown hc slack'
    unfold grown at hle ⊢
    rwa [if_pos hband]
  · have hstep := stepOf_mono cur h
    unfold grown
    rw [if_neg hband, if_neg (by omega)]
    omega

end Values

section OnWords

variable {cur : UInt32}

theorem flowAdaptDeadband_toNat (base : UInt64) :
    (flowAdaptDeadband base).toNat = bandOf base.toNat := by
  unfold flowAdaptDeadband bandOf
  simp only
  rw [toNat_ite_lt, toNat_shiftRight _ (by decide)]
  rfl

theorem flowAdaptStep_toNat (base amount : UInt64) :
    (flowAdaptStep base amount).toNat = stepOf base.toNat amount.toNat := by
  unfold flowAdaptStep stepOf
  simp only
  rw [toNat_shiftRight _ (by decide), toNat_ite_gt, toNat_ite_gt,
    toNat_shiftRight _ (by decide), toNat_shiftRight _ (by decide)]
  rfl

theorem flowAdaptClamp_toNat (s : UInt64) :
    (flowAdaptClamp s).toNat = max 10000 (min s.toNat 1000000) := by
  have hword : flowQuantumNs.toNat < 2 ^ 32 := by decide
  unfold flowAdaptClamp
  exact toNat_clamp_toUInt32 s min_le_quantum hword

/-- The controller on values: a lateness wins over an earliness. -/
theorem flowAdaptProp_toNat (hc : SliceIn cur) (exceed slack : UInt64) :
    (flowAdaptProp cur exceed slack).toNat = if exceed ≠ 0 then shrunk cur.toNat exceed.toNat
      else grown cur.toNat slack.toNat := by
  have hlo : 10000 ≤ cur.toNat := hc.1
  have hhi : cur.toNat ≤ 1000000 := hc.2
  have hbase : (flowSliceInherit cur).toUInt64.toNat = cur.toNat := by
    rw [flowSliceInherit_of_in hc, UInt32.toNat_toUInt64]
  unfold flowAdaptProp
  simp only
  generalize (flowSliceInherit cur).toUInt64 = base at hbase
  have hhold : (flowAdaptClamp base).toNat = cur.toNat := by
    rw [flowAdaptClamp_toNat]
    omega
  have hband (amount : UInt64) :
      amount ≤ flowAdaptDeadband base ↔ amount.toNat ≤ bandOf cur.toNat := by
    rw [UInt64.le_iff_toNat_le, flowAdaptDeadband_toNat, hbase]
  have hstep (amount : UInt64) :
      (flowAdaptStep base amount).toNat = stepOf cur.toNat amount.toNat := by
    rw [flowAdaptStep_toNat, hbase]
  have hquarter (amount : ℕ) := stepOf_quarter cur.toNat amount
  have hmoves {amount : UInt64} (h : ¬ amount ≤ flowAdaptDeadband base) :
      500 ≤ (flowAdaptStep base amount).toNat := by
    rw [hband, not_le] at h
    rw [hstep]
    exact stepOf_pos hlo h
  by_cases he : exceed = 0
  · rw [if_neg (not_not.mpr he), if_neg (not_not.mpr he)]
    unfold grown
    by_cases hs : slack ≤ flowAdaptDeadband base
    · rw [if_pos ((hband slack).mp hs)]
      split
      · exact hhold
      · exact hhold
    · have hs0 : slack ≠ 0 := by
        rintro rfl
        exact hs (UInt64.le_iff_toNat_le.mpr (Nat.zero_le _))
      have hpos := hmoves hs
      have hne : flowAdaptStep base slack ≠ 0 := toNat_pos_iff.mp (by omega)
      rw [if_pos hs0, if_neg hs, if_neg hne, if_neg (fun h => hs ((hband slack).mpr h)),
        flowAdaptClamp_toNat, flowSatAdd_toNat, hstep, hbase]
      have hq := hquarter slack.toNat
      omega
  · rw [if_pos he, if_pos he]
    unfold shrunk
    by_cases hx : exceed ≤ flowAdaptDeadband base
    · rw [if_pos hx, if_pos ((hband exceed).mp hx)]
      exact hhold
    · have hpos := hmoves hx
      have hne : flowAdaptStep base exceed ≠ 0 := toNat_pos_iff.mp (by omega)
      have hq := hquarter exceed.toNat
      have hlt : ¬ base ≤ flowAdaptStep base exceed := by
        rw [UInt64.le_iff_toNat_le, hstep, hbase]
        omega
      rw [if_neg hx, if_neg hne, if_neg hlt, if_neg (fun h => hx ((hband exceed).mpr h)),
        flowAdaptClamp_toNat, toNat_sub_of_le (by rw [hstep, hbase]; omega), hstep, hbase]
      omega

end OnWords

section Steps

variable {cur : UInt32}

/-- The slice after `n` steps of one lateness and one earliness. -/
def afterSteps (exceed slack : UInt64) (cur : UInt32) (n : ℕ) : UInt32 :=
  (fun x => flowAdaptProp x exceed slack)^[n] cur

theorem flowAdaptProp_shrinks (hc : SliceIn cur) {exceed : UInt64} (he : exceed ≠ 0)
    (slack : UInt64) : (flowAdaptProp cur exceed slack).toNat ≤ cur.toNat := by
  rw [flowAdaptProp_toNat hc, if_pos he]
  exact shrunk_le hc.1 _

theorem flowAdaptProp_grows (hc : SliceIn cur) (slack : UInt64) :
    cur.toNat ≤ (flowAdaptProp cur 0 slack).toNat := by
  rw [flowAdaptProp_toNat hc, if_neg (not_not.mpr rfl)]
  exact le_grown hc.2 _

/-- A lateness past the deadband of the start drives the slice to the floor. -/
theorem flowAdaptProp_settles_floor (hc : SliceIn cur) {exceed : UInt64} (slack : UInt64)
    (hband : bandOf cur.toNat < exceed.toNat) :
    Settle.SettlesAt (fun x => flowAdaptProp x exceed slack) cur flowSliceMinNs.toUInt32 := by
  have he : exceed ≠ 0 := toNat_pos_iff.mp (Nat.zero_lt_of_lt hband)
  have hkeeps (x : UInt32) (hx : SliceIn x ∧ bandOf x.toNat < exceed.toNat) :
      SliceIn (flowAdaptProp x exceed slack)
        ∧ bandOf (flowAdaptProp x exceed slack).toNat < exceed.toNat :=
    ⟨flowAdaptProp_in _ _ _,
      (bandOf_mono (flowAdaptProp_shrinks hx.1 he slack)).trans_lt hx.2⟩
  obtain ⟨y, hy⟩ := Settle.settles (I := fun x => SliceIn x ∧ bandOf x.toNat < exceed.toNat)
    (fun x => x.toNat) hkeeps (fun x hx hne =>
      lt_of_le_of_ne (flowAdaptProp_shrinks hx.1 he slack) fun h => hne (UInt32.toNat_inj.mp h))
    ⟨hc, hband⟩
  obtain ⟨hyin, hyband⟩ := hy.keeps hkeeps ⟨hc, hband⟩
  have hfix : (flowAdaptProp y exceed slack).toNat = y.toNat := by
    obtain ⟨-, -, hfix⟩ := hy
    exact congrArg UInt32.toNat hfix
  rw [flowAdaptProp_toNat hyin, if_pos he] at hfix
  unfold shrunk at hfix
  rw [if_neg (not_le.mpr hyband)] at hfix
  have hstep := stepOf_pos hyin.1 hyband
  have hmin : y = flowSliceMinNs.toUInt32 := UInt32.toNat_inj.mp (by
    show y.toNat = 10000
    omega)
  rwa [← hmin]

/-- A lateness within the deadband leaves the slice. -/
theorem flowAdaptProp_within (hc : SliceIn cur) {exceed : UInt64} (he : exceed ≠ 0)
    (slack : UInt64) (hband : exceed.toNat ≤ bandOf cur.toNat) :
    flowAdaptProp cur exceed slack = cur := by
  rw [← UInt32.toNat_inj, flowAdaptProp_toNat hc, if_pos he]
  exact if_pos hband

/-- An earliness drives the slice up to the quantum or to a deadband that holds it. -/
theorem flowAdaptProp_settles_up (hc : SliceIn cur) (slack : UInt64) :
    ∃ y, Settle.SettlesAt (fun x => flowAdaptProp x 0 slack) cur y
      ∧ (y = flowQuantumNs.toUInt32 ∨ slack.toNat ≤ bandOf y.toNat) := by
  have hkeeps (x : UInt32) (_ : SliceIn x) : SliceIn (flowAdaptProp x 0 slack) :=
    flowAdaptProp_in _ _ _
  obtain ⟨y, hy⟩ := Settle.settles (I := fun x => SliceIn x) (fun x => 1000000 - x.toNat) hkeeps
    (fun x hx hne => by
      have hle := flowAdaptProp_grows hx slack
      have hmax : (flowAdaptProp x 0 slack).toNat ≤ 1000000 := (flowAdaptProp_in x 0 slack).2
      have hne' : (flowAdaptProp x 0 slack).toNat ≠ x.toNat := fun h =>
        hne (UInt32.toNat_inj.mp h)
      omega) hc
  have hyin := hy.keeps hkeeps hc
  have hfix : (flowAdaptProp y 0 slack).toNat = y.toNat := by
    obtain ⟨-, -, hfix⟩ := hy
    exact congrArg UInt32.toNat hfix
  rw [flowAdaptProp_toNat hyin, if_neg (not_not.mpr rfl)] at hfix
  refine ⟨y, hy, ?_⟩
  by_cases hband : slack.toNat ≤ bandOf y.toNat
  · exact Or.inr hband
  · left
    unfold grown at hfix
    rw [if_neg hband] at hfix
    have hstep := stepOf_pos hyin.1 (not_le.mp hband)
    refine UInt32.toNat_inj.mp ?_
    show y.toNat = 1000000
    omega

/-- What one step of the controller does to a slice, and where repeated steps take it. -/
structure NeverRings (cur : UInt32) : Prop where
  range : ∀ exceed slack, SliceIn (flowAdaptProp cur exceed slack)
  shrinks : ∀ exceed slack, exceed ≠ 0 → flowAdaptProp cur exceed slack ≤ cur
  grows : ∀ slack, cur ≤ flowAdaptProp cur 0 slack
  quarter : ∀ exceed slack, 4 * (cur.toNat - (flowAdaptProp cur exceed slack).toNat) ≤ cur.toNat
    ∧ 4 * ((flowAdaptProp cur exceed slack).toNat - cur.toNat) ≤ cur.toNat
  exceed : ∀ exceed exceed' slack, exceed ≠ 0 → exceed ≤ exceed' →
    flowAdaptProp cur exceed' slack ≤ flowAdaptProp cur exceed slack
  slack : ∀ slack slack', slack ≤ slack' → flowAdaptProp cur 0 slack ≤ flowAdaptProp cur 0 slack'
  ignores : ∀ exceed slack slack', exceed ≠ 0 →
    flowAdaptProp cur exceed slack = flowAdaptProp cur exceed slack'
  lateness : ∀ exceed slack, exceed ≠ 0 →
    (Antitone fun n => (afterSteps exceed slack cur n).toNat)
      ∧ Settle.SettlesAt (fun x => flowAdaptProp x exceed slack) cur
        (if flowAdaptDeadband cur.toUInt64 < exceed then flowSliceMinNs.toUInt32 else cur)
  earliness : ∀ slack, (Monotone fun n => (afterSteps 0 slack cur n).toNat)
    ∧ ∃ y, Settle.SettlesAt (fun x => flowAdaptProp x 0 slack) cur y
      ∧ (y = flowQuantumNs.toUInt32 ∨ slack ≤ flowAdaptDeadband y.toUInt64)

theorem flowAdaptProp_quarter (hc : SliceIn cur) (exceed slack : UInt64) :
    4 * (cur.toNat - (flowAdaptProp cur exceed slack).toNat) ≤ cur.toNat
      ∧ 4 * ((flowAdaptProp cur exceed slack).toNat - cur.toNat) ≤ cur.toNat := by
  have hlo : 10000 ≤ cur.toNat := hc.1
  have hhi : cur.toNat ≤ 1000000 := hc.2
  have hexceed := stepOf_quarter cur.toNat exceed.toNat
  have hslack := stepOf_quarter cur.toNat slack.toNat
  rw [flowAdaptProp_toNat hc]
  unfold shrunk grown
  split_ifs <;> omega

/-- **The controller.** From every slice in range one step is bounded and monotone, and under a
constant lateness or earliness the slices are monotone and settle. -/
theorem flowAdaptProp_neverRings (hc : SliceIn cur) : NeverRings cur where
  range exceed slack := flowAdaptProp_in cur exceed slack
  shrinks exceed slack he := UInt32.le_iff_toNat_le.mpr (flowAdaptProp_shrinks hc he slack)
  grows slack := UInt32.le_iff_toNat_le.mpr (flowAdaptProp_grows hc slack)
  quarter := flowAdaptProp_quarter hc
  exceed exceed exceed' slack he hle := by
    have he' : exceed' ≠ 0 := by
      rintro rfl
      exact he (UInt64.le_zero_iff.mp hle)
    rw [UInt32.le_iff_toNat_le, flowAdaptProp_toNat hc, flowAdaptProp_toNat hc, if_pos he,
      if_pos he']
    exact shrunk_anti hc.1 (UInt64.le_iff_toNat_le.mp hle)
  slack slack slack' hle := by
    rw [UInt32.le_iff_toNat_le, flowAdaptProp_toNat hc, flowAdaptProp_toNat hc,
      if_neg (not_not.mpr rfl), if_neg (not_not.mpr rfl)]
    exact grown_mono hc.2 (UInt64.le_iff_toNat_le.mp hle)
  ignores exceed slack slack' he := by
    rw [← UInt32.toNat_inj, flowAdaptProp_toNat hc, flowAdaptProp_toNat hc, if_pos he, if_pos he]
  lateness exceed slack he := by
    refine ⟨Settle.antitone_iterates (I := fun x => SliceIn x) UInt32.toNat
      (fun x _ => flowAdaptProp_in _ _ _) (fun x hx => flowAdaptProp_shrinks hx he slack) hc, ?_⟩
    have hband : flowAdaptDeadband cur.toUInt64 < exceed ↔ bandOf cur.toNat < exceed.toNat := by
      rw [UInt64.lt_iff_toNat_lt, flowAdaptDeadband_toNat, UInt32.toNat_toUInt64]
    by_cases hlt : bandOf cur.toNat < exceed.toNat
    · rw [if_pos (hband.mpr hlt)]
      exact flowAdaptProp_settles_floor hc slack hlt
    · rw [if_neg (fun h => hlt (hband.mp h))]
      exact .refl (flowAdaptProp_within hc he slack (not_lt.mp hlt))
  earliness slack := by
    refine ⟨Settle.monotone_iterates (I := fun x => SliceIn x) UInt32.toNat
      (fun x _ => flowAdaptProp_in _ _ _) (fun x hx => flowAdaptProp_grows hx slack) hc, ?_⟩
    obtain ⟨y, hy, hend⟩ := flowAdaptProp_settles_up hc slack
    refine ⟨y, hy, hend.imp_right fun h => ?_⟩
    rwa [UInt64.le_iff_toNat_le, flowAdaptDeadband_toNat, UInt32.toNat_toUInt64]

theorem flowAdaptProp_neverRings_half : NeverRings 500000 := flowAdaptProp_neverRings (by decide)

end Steps

end ScxFlow
