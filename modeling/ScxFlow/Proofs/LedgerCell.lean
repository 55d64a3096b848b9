import ScxFlow.Lib.Atomic
import ScxFlow.Proofs.FairShare
import ScxFlow.Proofs.StrictKey

/-!
# The ledger of a task under races

`flow_clamp_to_min` and the charge of `flow_stopping` as programs of atomic instructions on a task's
vruntime, between two enables.  The stops of a task come one after another and are one party; clamps
come from anywhere.
A clamp swaps and never takes the place of a charge, so in whatever order the instructions come, each
charge counts once in the ledger, on top of where it started or of a clamp (`ledgerCell_charges`).
-/

namespace ScxFlow

open Atomic

inductive LedgerCall
  | clamp (min : UInt64)
  | charge (delta : UInt64) (weight : UInt32)

/-- `flow_clamp_to_min` once it has the minimum, and the charge of `flow_stopping`. -/
def ledgerCode : LedgerCall → Prog UInt64
  | .clamp min => .read fun cur =>
    let bound := flowVlagMaxNs
    let floor := if min > bound then min - bound else 0
    if min > bound ∧ cur < floor then .swap cur floor fun _ => .done else .done
  | .charge delta weight => .read fun vrun =>
    .exchange (flowLedgerAdvance vrun delta weight) fun _ => .done

theorem ledgerCode_clamp_eval (w : World) (t : FlowTaskCtx) (cpu : ℕ) :
    (ledgerCode (.clamp (flowCpuMin w cpu))).eval t.vruntime
      = (flowClampToMin w t cpu).vruntime := by
  unfold ledgerCode flowClampToMin
  simp only [Prog.eval]
  generalize (if flowCpuMin w cpu > flowVlagMaxNs then flowCpuMin w cpu - flowVlagMaxNs else 0)
    = floor
  split
  · simp [Prog.eval]
  · rfl

theorem ledgerCode_charge_eval (t : FlowTaskCtx) (delta : UInt64) :
    (ledgerCode (.charge delta (flowTaskEffectiveWeight t.weight t.hintW))).eval t.vruntime
      = (flowStopCharge t delta).vruntime := (flowStopCharge_vruntime t delta).symm

variable {ι : Type*}

section Alone

variable [DecidableEq ι] {s : State ι LedgerCall UInt64} {i : ι}

/-- Without a race the programs are the clamp and the charge of the ops. -/
theorem ledgerCell_clamp_alone (w : World) (t : FlowTaskCtx) (cpu : ℕ) (hi : s.pc i = none)
    (hs : s.word = t.vruntime) :
    Finishes ledgerCode
      ((Atomic.machine ledgerCode).step s (.call i (.clamp (flowCpuMin w cpu)))) i
      (flowClampToMin w t cpu).vruntime := by
  rw [← ledgerCode_clamp_eval, ← hs]
  exact finishes_call _ hi

theorem ledgerCell_charge_alone (t : FlowTaskCtx) (delta : UInt64) (hi : s.pc i = none)
    (hs : s.word = t.vruntime) :
    Finishes ledgerCode ((Atomic.machine ledgerCode).step s
      (.call i (.charge delta (flowTaskEffectiveWeight t.weight t.hintW)))) i
      (flowStopCharge t delta).vruntime := by
  rw [← ledgerCode_charge_eval, ← hs]
  exact finishes_call _ hi

end Alone

section Outline

variable {home i : ι} {v₀ v : UInt64} {n : ℕ}

/-- What the charges of a log add to the ledger. -/
def chargeIn : Event ι LedgerCall UInt64 → ℕ
  | .wrote _ (.charge delta weight) _ _ => (flowScaledDelta delta weight).toNat
  | _ => 0

def charged (log : List (Event ι LedgerCall UInt64)) : ℕ := (log.map chargeIn).sum

theorem charged_append (log log' : List (Event ι LedgerCall UInt64)) :
    charged (log ++ log') = charged log + charged log' := by
  simp [charged]

/-- The stops charge, and no clamp aims past `n`. -/
def LedgerCall.allowed (home : ι) (n : ℕ) (i : ι) : LedgerCall → Prop
  | .clamp min => min.toNat - 2000000 ≤ n
  | .charge _ _ => i = home

/-- A value that holds `m` of charges once each, on top of the start or of a clamp. -/
def Counts (v₀ : UInt64) (n m : ℕ) (v : UInt64) : Prop :=
  min (v₀.toNat + m) (2 ^ 64 - 1) ≤ v.toNat ∧ v.toNat ≤ max v₀.toNat n + m

/-- The points of the programs, where `m` is charged. -/
inductive LedgerAt (home : ι) (v₀ : UInt64) (n m : ℕ) (i : ι) : LedgerCall → Prog UInt64 → Prop
  | clampRead (min : UInt64) (hmin : min.toNat - 2000000 ≤ n) :
    LedgerAt home v₀ n m i (.clamp min) (ledgerCode (.clamp min))
  | clampSwap (min cur floor : UInt64) (hlt : cur < floor) (hfloor : floor.toNat ≤ n) :
    LedgerAt home v₀ n m i (.clamp min) (.swap cur floor fun _ => .done)
  | clampDone (min : UInt64) : LedgerAt home v₀ n m i (.clamp min) .done
  | chargeRead (delta : UInt64) (weight : UInt32) (hi : i = home) :
    LedgerAt home v₀ n m i (.charge delta weight) (ledgerCode (.charge delta weight))
  | chargeStore (delta : UInt64) (weight : UInt32) (vrun : UInt64) (hi : i = home)
    (hvrun : Counts v₀ n m vrun) : LedgerAt home v₀ n m i (.charge delta weight)
      (.exchange (flowLedgerAdvance vrun delta weight) fun _ => .done)
  | chargeDone (delta : UInt64) (weight : UInt32) (hi : i = home) :
    LedgerAt home v₀ n m i (.charge delta weight) .done

theorem Counts.charge {m : ℕ} (h : Counts v₀ n m v) (delta : UInt64) (weight : UInt32) :
    Counts v₀ n (m + (flowScaledDelta delta weight).toNat) (flowLedgerAdvance v delta weight) := by
  obtain ⟨hlo, hhi⟩ := h
  have hword := v.toNat_lt
  constructor
  · rw [flowLedgerAdvance, flowSatAdd_toNat]
    omega
  · rw [flowLedgerAdvance, flowSatAdd_toNat]
    omega

theorem Counts.lift {m : ℕ} {floor : UInt64} (h : Counts v₀ n m v) (hlt : v < floor)
    (hfloor : floor.toNat ≤ n) : Counts v₀ n m floor := by
  rw [UInt64.lt_iff_toNat_lt] at hlt
  exact ⟨h.1.trans hlt.le, by omega⟩

theorem LedgerAt.start {m : ℕ} {c : LedgerCall} (h : c.allowed home n i) :
    LedgerAt home v₀ n m i c (ledgerCode c) := by
  cases c with
  | clamp min => exact .clampRead min h
  | charge delta weight => exact .chargeRead delta weight h

/-- The read of a clamp leads to its swap or its end. -/
theorem LedgerAt.clampRest {m : ℕ} {min : UInt64} (hmin : min.toNat - 2000000 ≤ n) (cur : UInt64) :
    LedgerAt home v₀ n m i (.clamp min) ((ledgerCode (.clamp min)).rest cur) := by
  have hfloor : (if min > flowVlagMaxNs then min - flowVlagMaxNs else 0).toNat ≤ n := by
    split
    · rename_i h
      exact (UInt64.toNat_sub_of_le _ _ (UInt64.le_of_lt h)).trans_le hmin
    · exact Nat.zero_le n
  unfold ledgerCode Prog.rest
  simp only
  generalize (if min > flowVlagMaxNs then min - flowVlagMaxNs else 0) = floor at hfloor ⊢
  split
  · rename_i h
    exact .clampSwap min cur floor h.2 hfloor
  · exact .clampDone min

/-- The own step of a party. -/
theorem LedgerAt.step {m : ℕ} {c : LedgerCall} {p : Prog UInt64} (h : LedgerAt home v₀ n m i c p)
    (hv : Counts v₀ n m v) :
    let es : List (Event ι LedgerCall UInt64) := (p.writes v).toList.map (.wrote i c v)
    Counts v₀ n (m + charged es) ((p.writes v).getD v)
      ∧ LedgerAt home v₀ n (m + charged es) i c (p.rest v) := by
  intro es
  cases h with
  | clampRead min hmin => exact ⟨hv, .clampRest hmin v⟩
  | clampSwap min cur floor hlt hfloor =>
    by_cases hcur : v = cur
    · subst hcur
      have hwrites : (Prog.swap v floor fun _ => .done).writes v = some floor := if_pos rfl
      show Counts v₀ n (m + charged es) _ ∧ _
      rw [show charged es = 0 by simp [es, hwrites, charged, chargeIn], hwrites]
      exact ⟨hv.lift hlt hfloor, .clampDone min⟩
    · have hwrites : (Prog.swap cur floor fun _ => .done).writes v = none := if_neg hcur
      rw [show charged es = 0 by simp [es, hwrites, charged], hwrites]
      exact ⟨hv, .clampDone min⟩
  | clampDone min => exact ⟨hv, .clampDone min⟩
  | chargeRead delta weight hi => exact ⟨hv, .chargeStore delta weight v hi hv⟩
  | chargeStore delta weight vrun hi hvrun =>
    exact ⟨hvrun.charge delta weight, .chargeDone delta weight hi⟩
  | chargeDone delta weight hi => exact ⟨hv, .chargeDone delta weight hi⟩

/-- A party's step charges nothing, or it is the stops'. -/
theorem LedgerAt.charged_eq_zero {m : ℕ} {c : LedgerCall} {p : Prog UInt64}
    (h : LedgerAt home v₀ n m i c p) (hi : i ≠ home) :
    charged ((p.writes v).toList.map (Event.wrote i c v)) = 0 := by
  have hclamp (min : UInt64) (p : Prog UInt64) :
      charged ((p.writes v).toList.map (Event.wrote i (.clamp min) v)) = 0 := by
    rcases p.writes v with _ | new
    · rfl
    · rfl
  cases h with
  | clampRead min hmin => exact hclamp min _
  | clampSwap min cur floor hlt hfloor => exact hclamp min _
  | clampDone min => exact hclamp min _
  | chargeRead delta weight hmine => exact absurd hmine hi
  | chargeStore delta weight vrun hmine hvrun => exact absurd hmine hi
  | chargeDone delta weight hmine => exact absurd hmine hi

/-- Only a party that charges has an assertion about what was charged. -/
theorem LedgerAt.free {m m' : ℕ} {c : LedgerCall} {p : Prog UInt64} (h : LedgerAt home v₀ n m i c p)
    (hm : i = home → m' = m) : LedgerAt home v₀ n m' i c p := by
  cases h with
  | clampRead min hmin => exact .clampRead min hmin
  | clampSwap min cur floor hlt hfloor => exact .clampSwap min cur floor hlt hfloor
  | clampDone min => exact .clampDone min
  | chargeRead delta weight hi => exact .chargeRead delta weight hi
  | chargeStore delta weight vrun hi hvrun => exact .chargeStore delta weight vrun hi (hm hi ▸ hvrun)
  | chargeDone delta weight hi => exact .chargeDone delta weight hi

/-- What is charged is counted at every point of the programs. -/
theorem ledger_outline (home : ι) (v₀ : UInt64) (n : ℕ) :
    Outline ledgerCode (LedgerCall.allowed home n)
      (fun v log => Counts v₀ n (charged log) v)
      fun i c p _ log => LedgerAt home v₀ n (charged log) i c p where
  own i v log a a' v' es hmove hv ha := by
    rw [charged_append]
    cases hmove with
    | call c hc =>
      refine ⟨hv, fun c' p hp => ?_⟩
      cases hp
      exact .start hc
    | step c p =>
      obtain ⟨hv', hp'⟩ := (ha c p rfl).step hv
      refine ⟨hv', fun c' p' hp => ?_⟩
      cases hp
      exact hp'
    | ret c => exact ⟨hv, fun _ _ hp => nomatch hp⟩
  free i v log a a' v' es hmove hv ha j c p hji hj := by
    rw [charged_append]
    refine hj.free fun hhome => ?_
    have hi : i ≠ home := fun h => hji (hhome.trans h.symm)
    cases hmove with
    | call c hc => rfl
    | step c p => rw [(ha c p rfl).charged_eq_zero hi, Nat.add_zero]
    | ret c => rfl

variable [DecidableEq ι]

/-- Under any interleaving of the instructions of the clamps of any number of parties, none aiming past
`n`, and of the stops, each charge that was stored counts once in the ledger: it is at least what it
started from and the charges, short of saturation, and at most the greater of that start and `n` and
the charges. -/
theorem ledgerCell_charges (home : ι) (v₀ : UInt64) (n : ℕ) (ls : List (Label ι LedgerCall))
    (hls : ∀ i c, .call i c ∈ ls → c.allowed home n i) :
    let M := Atomic.machine ledgerCode
    let s := Atomic.start ι LedgerCall v₀
    min (v₀.toNat + charged (M.log s ls)) (2 ^ 64 - 1) ≤ (M.exec s ls).word.toNat
      ∧ (M.exec s ls).word.toNat ≤ max v₀.toNat n + charged (M.log s ls) :=
  ((ledger_outline home v₀ n).run ⟨min_le_left _ _, by simp [charged]⟩ hls).word

/-- A clamp reads, a stop charges 1 ms to the ledger, and the swap of the clamp is lost. -/
def chargeWins : List (Label Bool LedgerCall) :=
  [.call false (.clamp 5000000), .tick false, .call true (.charge 1000000 128), .tick true,
    .tick true, .tick false]

theorem ledgerCell_charges_chargeWins :
    let M := Atomic.machine ledgerCode
    let s := Atomic.start Bool LedgerCall 0
    (M.exec s chargeWins).word = 1000000
      ∧ min (0 + charged (M.log s chargeWins)) (2 ^ 64 - 1) ≤ (M.exec s chargeWins).word.toNat
      ∧ (M.exec s chargeWins).word.toNat ≤ max 0 3000000 + charged (M.log s chargeWins) :=
  ⟨by decide +kernel, ledgerCell_charges true 0 3000000 chargeWins (by
    intro i c h
    simp only [chargeWins, List.mem_cons, Label.call.injEq, reduceCtorEq, List.not_mem_nil,
      or_false, false_or] at h
    rcases h with ⟨-, rfl⟩ | ⟨rfl, rfl⟩
    · exact le_rfl
    · rfl)⟩

end Outline

end ScxFlow
