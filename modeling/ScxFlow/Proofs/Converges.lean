import ScxFlow.Lib.Settle
import ScxFlow.Proofs.TaskBounds

/-!
# The predictor converges

Under stops of one length the average closes in on the length from its own side until the shift of
what is left is zero, and then the deviation closes in on what is left.  The pair of the two
distances, the first weighing more than the whole range of the second, drops at every step.
-/

open Function

namespace ScxFlow

/-- The average after a burst of length `d`. -/
def avgStep (d a : ℕ) : ℕ :=
  if a = 0 then d
  else if a < d then a + (d - a) / 8
  else min (a - (a - d) / 16) 1000000000

/-- The error the deviation follows. -/
def predErr (d a : ℕ) : ℕ := max 1 (max (d - a) (a - d))

/-- The deviation after a burst of length `d` with the new average `a`. -/
def devStep (d a v : ℕ) : ℕ :=
  if v = 0 then max (a / 4) (predErr d a)
  else if v < predErr d a then v + (predErr d a - v) / 4
  else min (v - (v - predErr d a) / 8) 1000000000

/-- The pair after a burst. -/
def predStep (d : ℕ) (x : ℕ × ℕ) : ℕ × ℕ := (avgStep d x.1, devStep d (avgStep d x.1) x.2)

/-- The pairs of a predictor with history. -/
def HasHistory (x : ℕ × ℕ) : Prop :=
  1 ≤ x.1 ∧ x.1 ≤ 1000000000 ∧ 1 ≤ x.2 ∧ x.2 ≤ 1000000000

section Steps

variable {d : ℕ} (hlo : 1 ≤ d) (hhi : d ≤ 1000000000)
include hlo hhi

/-- The average never passes the length of the burst. -/
theorem avgStep_between (a : ℕ) (ha : a ≠ 0) :
    (a ≤ d → a ≤ avgStep d a ∧ avgStep d a ≤ d)
      ∧ (d ≤ a → d ≤ avgStep d a ∧ avgStep d a ≤ a) := by
  unfold avgStep
  rw [if_neg ha]
  split_ifs <;> omega

theorem avgStep_in (a : ℕ) : 1 ≤ avgStep d a ∧ avgStep d a ≤ 1000000000 := by
  unfold avgStep
  split_ifs <;> omega

theorem predStep_history (x : ℕ × ℕ) : HasHistory (predStep d x) := by
  obtain ⟨hmin, hmax⟩ := avgStep_in hlo hhi x.1
  refine ⟨hmin, hmax, ?_⟩
  show 1 ≤ devStep d (avgStep d x.1) x.2 ∧ devStep d (avgStep d x.1) x.2 ≤ 1000000000
  generalize avgStep d x.1 = a at hmin hmax
  unfold devStep predErr
  split_ifs <;> omega

/-- A step that moves the average brings it closer. -/
theorem avgStep_closer {a : ℕ} (ha : a ≠ 0) (hne : avgStep d a ≠ a) :
    max (d - avgStep d a) (avgStep d a - d) < max (d - a) (a - d) := by
  unfold avgStep at *
  rw [if_neg ha] at *
  split_ifs at * <;> omega

omit hlo in
/-- Against an error that stays, a step that moves the deviation brings it closer. -/
theorem devStep_closer {a v : ℕ} (ha : a ≤ 1000000000) (hv : v ≠ 0) (hne : devStep d a v ≠ v) :
    max (predErr d a - devStep d a v) (devStep d a v - predErr d a)
      < max (predErr d a - v) (v - predErr d a) := by
  have herr : predErr d a ≤ 1000000000 := by
    unfold predErr
    omega
  unfold devStep at *
  rw [if_neg hv] at *
  generalize predErr d a = err at *
  split_ifs at * <;> omega

/-- The distance of the average, and below it the distance of the deviation. -/
def predMeasure (d : ℕ) (x : ℕ × ℕ) : ℕ :=
  (max (d - x.1) (x.1 - d)) * 2000000000
    + max (predErr d x.1 - x.2) (x.2 - predErr d x.1)

theorem predStep_measure (x : ℕ × ℕ) (hx : HasHistory x) (hne : predStep d x ≠ x) :
    predMeasure d (predStep d x) < predMeasure d x := by
  obtain ⟨hmin, hmax, hv, hv'⟩ := predStep_history hlo hhi x
  obtain ⟨a, v⟩ := x
  obtain ⟨ha, ha', hdev, hdev'⟩ : 1 ≤ a ∧ a ≤ 1000000000 ∧ 1 ≤ v ∧ v ≤ 1000000000 := hx
  by_cases hstill : avgStep d a = a
  · -- the average has settled, and the deviation moves
    have hmoves : devStep d a v ≠ v := fun h => hne (Prod.ext hstill (by
      show devStep d (avgStep d a) v = v
      rw [hstill, h]))
    have hcloser := devStep_closer hhi ha' (by omega) hmoves
    show max (d - avgStep d a) (avgStep d a - d) * _ + max (predErr d (avgStep d a) - devStep d
      (avgStep d a) v) (devStep d (avgStep d a) v - predErr d (avgStep d a)) < _
    rw [hstill]
    exact Nat.add_lt_add_left hcloser _
  · -- the average moves, which outweighs what the deviation does
    have hcloser := avgStep_closer hlo hhi (by omega) hstill
    have herr : predErr d (predStep d (a, v)).1 ≤ 1000000000 := by
      unfold predErr
      omega
    have hsecond : max (predErr d (predStep d (a, v)).1 - (predStep d (a, v)).2)
        ((predStep d (a, v)).2 - predErr d (predStep d (a, v)).1) ≤ 1000000000 :=
      max_le ((Nat.sub_le _ _).trans herr) ((Nat.sub_le _ _).trans hv')
    calc predMeasure d (predStep d (a, v))
        ≤ max (d - avgStep d a) (avgStep d a - d) * 2000000000 + 1000000000 :=
          Nat.add_le_add_left hsecond _
      _ < (max (d - avgStep d a) (avgStep d a - d) + 1) * 2000000000 := by
          rw [Nat.add_mul]
          omega
      _ ≤ max (d - a) (a - d) * 2000000000 := Nat.mul_le_mul_right _ hcloser
      _ ≤ predMeasure d (a, v) := Nat.le_add_right _ _

omit hlo in
theorem avgStep_fixed {a : ℕ} (ha : a ≠ 0) (hfix : avgStep d a = a) : d ≤ a + 7 ∧ a ≤ d + 15 := by
  unfold avgStep at hfix
  rw [if_neg ha] at hfix
  split_ifs at hfix <;> omega

omit hlo hhi in
theorem devStep_fixed {a v : ℕ} (hv : v ≠ 0) (hfix : devStep d a v = v) :
    predErr d a ≤ v + 3 ∧ v ≤ predErr d a + 7 := by
  unfold devStep at hfix
  rw [if_neg hv] at hfix
  generalize predErr d a = err at *
  split_ifs at hfix <;> omega

omit hlo in
/-- A pair the update keeps. -/
theorem predStep_fixed {x : ℕ × ℕ} (hx : HasHistory x) (hfix : predStep d x = x) :
    d ≤ x.1 + 7 ∧ x.1 ≤ d + 15 ∧ 1 ≤ x.2 ∧ x.2 ≤ 22
      ∧ x.1 + x.2 + x.2 / 2 ≤ d + 48 := by
  obtain ⟨a, v⟩ := x
  obtain ⟨ha, ha', hv, hv'⟩ : 1 ≤ a ∧ a ≤ 1000000000 ∧ 1 ≤ v ∧ v ≤ 1000000000 := hx
  have havg : avgStep d a = a := congrArg Prod.fst hfix
  have hdev : devStep d (avgStep d a) v = v := congrArg Prod.snd hfix
  rw [havg] at hdev
  obtain ⟨hlow, hhigh⟩ := avgStep_fixed hhi (by omega) havg
  obtain ⟨hdlow, hdhigh⟩ := devStep_fixed (by omega) hdev
  have herr : predErr d a = max 1 (max (d - a) (a - d)) := rfl
  show d ≤ a + 7 ∧ a ≤ d + 15 ∧ 1 ≤ v ∧ v ≤ 22 ∧ a + v + v / 2 ≤ d + 48
  generalize predErr d a = err at hdlow hdhigh herr
  omega

/-- The pairs settle, from any start. -/
theorem predStep_settles (x : ℕ × ℕ) :
    ∃ y, Settle.SettlesAt (predStep d) x y ∧ HasHistory y := by
  obtain ⟨y, hy⟩ := Settle.settles (I := HasHistory) (predMeasure d)
    (fun x _ => predStep_history hlo hhi x) (predStep_measure hlo hhi)
    (predStep_history hlo hhi x)
  exact ⟨y, hy.of_step, hy.keeps (fun x _ => predStep_history hlo hhi x)
    (predStep_history hlo hhi x)⟩

end Steps

section OnWords

variable {d : UInt64} {t : FlowTaskCtx}

/-- The length of a burst in range is what the predictor is fed. -/
theorem flowPredClamp_burst (hlo : 1 ≤ d.toNat) (hhi : d.toNat ≤ 1000000000) :
    flowPredClamp (if d ≠ 0 then d else flowPredMinNs) = d := by
  rw [if_pos (toNat_pos_iff.mp hlo), ← UInt64.toNat_inj, flowPredClamp_toNat]
  omega

/-- The move up of either filter, a share of the gap, within the range. -/
theorem flowPredUp_toNat {x y diff : UInt64} (hx : 1 ≤ x.toNat) (hlt : x.toNat < y.toNat)
    (hy : y.toNat ≤ 1000000000) (hdiff : diff.toNat ≤ y.toNat - x.toNat) :
    (flowPredClamp (flowSatAdd x diff)).toNat = x.toNat + diff.toNat := by
  rw [flowPredClamp_toNat, flowSatAdd_toNat]
  omega

/-- The move down of either filter, a share of the gap. -/
theorem flowPredDown_toNat {x y diff : UInt64} (hy : 1 ≤ y.toNat) (hle : y.toNat ≤ x.toNat)
    (hdiff : diff.toNat ≤ x.toNat - y.toNat) :
    (if diff > x then flowPredMinNs else flowPredClamp (x - diff)).toNat
      = min (x.toNat - diff.toNat) 1000000000 := by
  have hfit : ¬ diff > x := by
    rw [gt_iff_lt, UInt64.lt_iff_toNat_lt]
    omega
  rw [if_neg hfit, flowPredClamp_toNat, toNat_sub_of_le (by omega)]
  omega

theorem flowPredAvg_toNat (hlo : 1 ≤ d.toNat) (hhi : d.toNat ≤ 1000000000) (avg : UInt64) :
    (flowPredAvg avg d).toNat = avgStep d.toNat avg.toNat := by
  unfold flowPredAvg avgStep
  simp only
  rw [flowPredClamp_burst hlo hhi]
  by_cases h0 : avg = 0
  · rw [h0]
    rfl
  have hpos : avg.toNat ≠ 0 := (toNat_pos_iff.mpr h0).ne'
  rw [if_neg h0, if_neg hpos]
  by_cases hup : d > avg
  · have hlt : avg.toNat < d.toNat := UInt64.lt_iff_toNat_lt.mp hup
    have hdiff : ((d - avg) >>> 3).toNat = (d.toNat - avg.toNat) / 8 := by
      rw [toNat_shiftRight _ (by decide), toNat_sub_of_le hlt.le]
      rfl
    rw [if_pos hup, if_pos hlt, flowPredUp_toNat (by omega) hlt hhi (by omega), hdiff]
  · have hge : d.toNat ≤ avg.toNat := not_lt.mp fun h => hup (UInt64.lt_iff_toNat_lt.mpr h)
    have hdiff : ((avg - d) >>> 4).toNat = (avg.toNat - d.toNat) / 16 := by
      rw [toNat_shiftRight _ (by decide), toNat_sub_of_le hge]
      rfl
    rw [if_neg hup, if_neg (not_lt.mpr hge), flowPredDown_toNat hlo hge (by omega), hdiff]

/-- The error the deviation of the source follows. -/
theorem flowPredErr_toNat {a : UInt64} (hd : d.toNat ≤ 1000000000) (ha : a.toNat ≤ 1000000000) :
    (flowPredClamp (if (if d > a then d - a else a - d) ≠ 0 then (if d > a then d - a else a - d)
      else flowPredMinNs)).toNat = predErr d.toNat a.toNat := by
  have hgap : (if d > a then d - a else a - d).toNat = max (d.toNat - a.toNat) (a.toNat - d.toNat)
      := by
    by_cases hlt : d > a
    · have hlt' : a.toNat < d.toNat := UInt64.lt_iff_toNat_lt.mp hlt
      rw [if_pos hlt, toNat_sub_of_le hlt'.le]
      omega
    · have hge : d.toNat ≤ a.toNat := not_lt.mp fun h => hlt (UInt64.lt_iff_toNat_lt.mpr h)
      rw [if_neg hlt, toNat_sub_of_le hge]
      omega
  generalize (if d > a then d - a else a - d) = gap at hgap
  unfold predErr
  rw [flowPredClamp_toNat]
  by_cases h0 : gap = 0
  · rw [if_neg (not_not.mpr h0)]
    have hzero : gap.toNat = 0 := by
      rw [h0]
      rfl
    show max 1 (min 1 1000000000) = _
    omega
  · rw [if_pos h0]
    omega

theorem flowPredDev_toNat (hlo : 1 ≤ d.toNat) (hhi : d.toNat ≤ 1000000000) {avg : UInt64}
    (ha : 1 ≤ avg.toNat) (ha' : avg.toNat ≤ 1000000000) (dev : UInt64) :
    (flowPredDev dev avg d).toNat = devStep d.toNat avg.toNat dev.toNat := by
  have herr := flowPredErr_toNat hhi ha'
  unfold flowPredDev devStep
  simp only
  rw [flowPredClamp_burst hlo hhi, if_pos (toNat_pos_iff.mp ha)]
  generalize flowPredClamp (if (if d > avg then d - avg else avg - d) ≠ 0 then
    (if d > avg then d - avg else avg - d) else flowPredMinNs) = err at herr ⊢
  have herrIn : 1 ≤ predErr d.toNat avg.toNat ∧ predErr d.toNat avg.toNat ≤ 1000000000 := by
    unfold predErr
    omega
  rw [← herr] at herrIn ⊢
  by_cases h0 : dev = 0
  · have hzero : dev.toNat = 0 := by
      rw [h0]
      rfl
    rw [if_pos h0, if_pos hzero]
    have hfloor : (avg >>> 2).toNat = avg.toNat / 4 := toNat_shiftRight avg (by decide)
    generalize avg >>> 2 = floor at hfloor
    by_cases hgt : floor > err
    · have hlt : err.toNat < floor.toNat := UInt64.lt_iff_toNat_lt.mp hgt
      rw [if_pos hgt, flowPredClamp_toNat]
      omega
    · have hge : floor.toNat ≤ err.toNat := not_lt.mp fun h => hgt (UInt64.lt_iff_toNat_lt.mpr h)
      rw [if_neg hgt]
      omega
  have hpos : dev.toNat ≠ 0 := (toNat_pos_iff.mpr h0).ne'
  rw [if_neg h0, if_neg hpos]
  by_cases hup : err > dev
  · have hlt : dev.toNat < err.toNat := UInt64.lt_iff_toNat_lt.mp hup
    have hdiff : ((err - dev) >>> 2).toNat = (err.toNat - dev.toNat) / 4 := by
      rw [toNat_shiftRight _ (by decide), toNat_sub_of_le hlt.le]
      rfl
    rw [if_pos hup, if_pos hlt, flowPredUp_toNat (by omega) hlt (by omega) (by omega), hdiff]
  · have hge : err.toNat ≤ dev.toNat := not_lt.mp fun h => hup (UInt64.lt_iff_toNat_lt.mpr h)
    have hdiff : ((dev - err) >>> 3).toNat = (dev.toNat - err.toNat) / 8 := by
      rw [toNat_shiftRight _ (by decide), toNat_sub_of_le hge]
      rfl
    rw [if_neg hup, if_neg (not_lt.mpr hge), flowPredDown_toNat herrIn.1 hge (by omega), hdiff]

end OnWords

section Stops

variable {d : UInt64} {t : FlowTaskCtx}

/-- The burst of a task as its predictor holds it. -/
def burstPair (t : FlowTaskCtx) : ℕ × ℕ := (t.avgNs.toNat, t.devNs.toNat)

theorem flowStopCharge_burst (hlo : 1 ≤ d.toNat) (hhi : d.toNat ≤ 1000000000) :
    Semiconj burstPair (fun t => flowStopCharge t d) (predStep d.toNat) := fun t => by
  have hstore {x : UInt64} (h : 1 ≤ x.toNat ∧ x.toNat ≤ 1000000000) :
      x.toUInt32.toNat = x.toNat := by
    rw [UInt64.toNat_toUInt32]
    omega
  have havg := flowPredAvg_in t.avgNs.toUInt64 d
  have hval := flowPredAvg_toNat hlo hhi t.avgNs.toUInt64
  have hdev := flowPredDev_toNat hlo hhi havg.1 havg.2 t.devNs.toUInt64
  rw [UInt32.toNat_toUInt64] at hval hdev
  refine Prod.ext ?_ ?_
  · show (flowPredAvg t.avgNs.toUInt64 d).toUInt32.toNat = avgStep d.toNat t.avgNs.toNat
    rw [hstore havg, hval]
  · show (flowPredDev t.devNs.toUInt64 (flowPredAvg t.avgNs.toUInt64 d) d).toUInt32.toNat
      = devStep d.toNat (avgStep d.toNat t.avgNs.toNat) t.devNs.toNat
    rw [hstore (flowPredDev_in _ _ _), hdev, hval]

/-- The state of a task after `n` stops of length `d`. -/
def afterStops (d : UInt64) (t : FlowTaskCtx) (n : ℕ) : FlowTaskCtx :=
  (fun t => flowStopCharge t d)^[n] t

/-- One step of an average towards `d`: the first sample takes it, and no later one passes it. -/
def Approaches (d a a' : ℕ) : Prop :=
  (a = 0 → a' = d) ∧ (a ≠ 0 → a ≤ d → a ≤ a' ∧ a' ≤ d) ∧ (d ≤ a → d ≤ a' ∧ a' ≤ a)

/-- Where the predictor of a task settles under bursts of length `d`. -/
structure Converged (d : ℕ) (t : FlowTaskCtx) : Prop where
  avg : d ≤ t.avgNs.toNat + 7 ∧ t.avgNs.toNat ≤ d + 15 ∧ 1 ≤ t.avgNs.toNat
  dev : 1 ≤ t.devNs.toNat ∧ t.devNs.toNat ≤ 22
  period : max 1 (d - 7) ≤ (flowPredPeriod t.avgNs.toUInt64 t.devNs.toUInt64).toNat
    ∧ (flowPredPeriod t.avgNs.toUInt64 t.devNs.toUInt64).toNat ≤ min (d + 48) 1000000000

theorem converged_of_fixed (hhi : d.toNat ≤ 1000000000)
    (hx : HasHistory (burstPair t)) (hfix : predStep d.toNat (burstPair t) = burstPair t) :
    Converged d.toNat t := by
  obtain ⟨hlow, hhigh, hdev, hdev', hsum⟩ := predStep_fixed hhi hx hfix
  obtain ⟨hpos, -⟩ := hx
  have hperiod := flowPredPeriod_exact t (by show (burstPair t).1 ≠ 0; omega)
  have havg : t.avgNs.toNat = (burstPair t).1 := rfl
  have hdevs : t.devNs.toNat = (burstPair t).2 := rfl
  refine ⟨?_, ?_, ?_⟩
  · omega
  · omega
  · rw [hperiod]
    omega

/-- **Convergence.** Under stops of one length from a nanosecond to a second the average of any
task approaches the length without passing it, and its average and deviation reach values near
the length that further stops keep. -/
theorem afterStops_converges (hlo : 1 ≤ d.toNat) (hhi : d.toNat ≤ 1000000000) (t : FlowTaskCtx) :
    (∀ n, Approaches d.toNat (afterStops d t n).avgNs.toNat (afterStops d t (n + 1)).avgNs.toNat)
      ∧ ∃ n, ∀ m, n ≤ m → Converged d.toNat (afterStops d t m)
        ∧ (afterStops d t m).avgNs = (afterStops d t n).avgNs
        ∧ (afterStops d t m).devNs = (afterStops d t n).devNs := by
  have hburst := flowStopCharge_burst hlo hhi
  have hiter (n : ℕ) : burstPair (afterStops d t n) = (predStep d.toNat)^[n] (burstPair t) :=
    hburst.iterate_right n t
  constructor
  · intro n
    have hstep : (afterStops d t (n + 1)).avgNs.toNat
        = avgStep d.toNat (afterStops d t n).avgNs.toNat := by
      have hsucc : afterStops d t (n + 1) = flowStopCharge (afterStops d t n) d :=
        iterate_succ_apply' _ n t
      rw [hsucc]
      exact congrArg Prod.fst (hburst (afterStops d t n))
    rw [hstep]
    refine ⟨fun h => by rw [h]; rfl, fun h => (avgStep_between hlo hhi _ h).1, fun h => ?_⟩
    exact (avgStep_between hlo hhi _ (by omega)).2 h
  · obtain ⟨y, hy, hhist⟩ := predStep_settles hlo hhi (burstPair t)
    obtain ⟨n, hn⟩ := hy.eventually
    obtain ⟨-, -, hfix⟩ := hy
    refine ⟨n, fun m hm => ?_⟩
    have hm' : burstPair (afterStops d t m) = y := (hiter m).trans (hn m hm)
    have hn' : burstPair (afterStops d t n) = y := (hiter n).trans (hn n le_rfl)
    have hsame : burstPair (afterStops d t m) = burstPair (afterStops d t n) := hm'.trans hn'.symm
    refine ⟨converged_of_fixed hhi (hm' ▸ hhist) (by rw [hm']; exact hfix), ?_, ?_⟩
    · exact UInt32.toNat_inj.mp (congrArg Prod.fst hsame)
    · exact UInt32.toNat_inj.mp (congrArg Prod.snd hsame)

/-- Bursts of a quarter millisecond after the enable. -/
theorem afterStops_converges_fresh :
    (∀ n, Approaches 250000 (afterStops 250000 FlowTaskCtx.fresh n).avgNs.toNat
        (afterStops 250000 FlowTaskCtx.fresh (n + 1)).avgNs.toNat)
      ∧ ∃ n, ∀ m, n ≤ m → Converged 250000 (afterStops 250000 FlowTaskCtx.fresh m)
        ∧ (afterStops 250000 FlowTaskCtx.fresh m).avgNs
          = (afterStops 250000 FlowTaskCtx.fresh n).avgNs
        ∧ (afterStops 250000 FlowTaskCtx.fresh m).devNs
          = (afterStops 250000 FlowTaskCtx.fresh n).devNs :=
  afterStops_converges (d := 250000) (by decide) (by decide) FlowTaskCtx.fresh

end Stops

end ScxFlow
