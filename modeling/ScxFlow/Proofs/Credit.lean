import ScxFlow.Dispatch
import ScxFlow.Lib.Cell
import ScxFlow.Proofs.Words

/-!
# The credit cell under races

`flow_credit_add` and `flow_credit_consume` as calls on one cell behind compare and swap, from any
number of CPUs.  Whatever the order of their reads and swaps, the cell stays within its cap, a
consume that returns true takes its need from a value that covers it and the bound, a call that
gives up changes nothing, and no more is taken than was offered [credit_cell_safe].
-/

namespace ScxFlow

section Calls

/-- The two writers of the credit cell. -/
inductive CreditCall
  | add (delta : UInt64)
  | consume (exceed : UInt64)
  deriving DecidableEq

/-- What one consume takes. -/
def flowCreditNeed (exceed : UInt64) : UInt64 := if exceed ≠ 0 then exceed else flowRedEmaxNs

/-- The body of each loop on the value it read: four tries, none for a zero delta, and a consume
that is short returns without a swap. -/
def creditOps : CellOps CreditCall UInt64 where
  tries
    | .add delta => if delta = 0 then 0 else 4
    | .consume _ => 4
  offer
    | .add delta, cur => some (flowCreditAdd cur delta)
    | .consume exceed, cur => flowCreditConsume cur exceed

/-- The delta a call offers to the cell. -/
def CreditCall.offers : CreditCall → ℕ
  | .add delta => delta.toNat
  | .consume _ => 0

variable {ι : Type*}

/-- The deltas offered by the adds that were called. -/
def creditOffered (log : List (Cell.Event ι CreditCall UInt64)) : ℕ :=
  ((Cell.started log).map fun x => x.2.offers).sum

/-- What the consumes that returned true took off the cell. -/
def creditRemoved (log : List (Cell.Event ι CreditCall UInt64)) : ℕ :=
  (log.map fun
    | .took _ (.consume _) old new => old.toNat - new.toNat
    | _ => 0).sum

end Calls

section OneCall

theorem flowCreditConsume_eq_some {cur exceed new : UInt64} :
    flowCreditConsume cur exceed = some new
      ↔ flowCreditNeed exceed ≤ cur ∧ flowRedEmaxNs ≤ cur ∧ new = cur - flowCreditNeed exceed := by
  show (if cur < flowCreditNeed exceed then none
    else if cur < flowRedEmaxNs then none else some (cur - flowCreditNeed exceed)) = some new ↔ _
  rw [← UInt64.not_lt, ← UInt64.not_lt]
  split_ifs with hn he
  · exact iff_of_false (by simp) fun h => h.1 hn
  · exact iff_of_false (by simp) fun h => h.2.1 he
  · simp only [hn, he, not_false_eq_true, true_and, Option.some.injEq]
    exact eq_comm

theorem flowCreditAdd_toNat {cur : UInt64} (delta : UInt64) (h : cur.toNat ≤ 1000000000) :
    (flowCreditAdd cur delta).toNat = min (cur.toNat + delta.toNat) 1000000000 := by
  have hd := delta.toNat_lt
  have hmax : flowPredMaxNs.toNat = 1000000000 := rfl
  unfold flowCreditAdd
  simp only [gt_iff_lt, UInt64.lt_iff_toNat_lt]
  rw [hmax, flowSatAdd_toNat]
  split_ifs with h0 hc
  · simp [h0, h]
  · omega
  · rw [flowSatAdd_toNat]
    omega

/-- An offer keeps the cap, and pays for what it takes with what it adds. -/
theorem creditOps_offer {c : CreditCall} {cur new : UInt64} (h : cur.toNat ≤ 1000000000)
    (ho : creditOps.offer c cur = some new) :
    new.toNat ≤ 1000000000 ∧ match c with
      | .add delta => new.toNat ≤ cur.toNat + delta.toNat
      | .consume _ => (cur.toNat - new.toNat) + new.toNat = cur.toNat := by
  cases c with
  | add delta =>
    obtain rfl : flowCreditAdd cur delta = new := Option.some.inj ho
    rw [flowCreditAdd_toNat delta h]
    exact ⟨min_le_right _ _, min_le_left _ _⟩
  | consume exceed =>
    obtain ⟨hn, -, rfl⟩ := flowCreditConsume_eq_some.mp ho
    rw [UInt64.le_iff_toNat_le] at hn
    have hsub := toNat_sub_of_le hn
    exact ⟨by omega, by simp only; omega⟩

end OneCall

section Interleaved

variable {ι : Type*} [DecidableEq ι]

/-- The cell and what was taken off it are paid for by the adds that ended. -/
theorem credit_invariant (ls : List (Cell.Label ι CreditCall)) :
    ((Cell.machine creditOps).exec (Cell.start creditOps ι 0) ls).cell.toNat ≤ 1000000000
    ∧ creditRemoved ((Cell.machine creditOps).log (Cell.start creditOps ι 0) ls)
        + ((Cell.machine creditOps).exec (Cell.start creditOps ι 0) ls).cell.toNat
      ≤ ((Cell.ended ((Cell.machine creditOps).log (Cell.start creditOps ι 0) ls)).map
          fun x => x.2.offers).sum := by
  refine Cell.invariant (s := Cell.start creditOps ι 0) (I := fun v log => v.toNat ≤ 1000000000
    ∧ creditRemoved log + v.toNat ≤ ((Cell.ended log).map fun x => x.2.offers).sum) ?_ ?_ ls ?_
  · rintro v log es hes ⟨hcap, hsum⟩
    refine ⟨hcap, ?_⟩
    have hzero : creditRemoved es = 0 := by
      unfold creditRemoved
      rw [List.sum_eq_zero_iff]
      intro x hx
      obtain ⟨e, he, rfl⟩ := List.mem_map.mp hx
      rcases e with ⟨i, c⟩ | ⟨i, c, old, new⟩ | ⟨i, c⟩
      · rfl
      · exact absurd he (hes i c old new)
      · rfl
    have happ : creditRemoved (log ++ es) = creditRemoved log + creditRemoved es := by
      simp [creditRemoved]
    rw [happ, hzero, Cell.ended_append, List.map_append, List.sum_append]
    omega
  · rintro v log i c new ho ⟨hcap, hsum⟩
    obtain ⟨hnew, hpay⟩ := creditOps_offer hcap ho
    refine ⟨hnew, ?_⟩
    rw [Cell.ended_append, List.map_append, List.sum_append]
    cases c with
    | add delta =>
      simp only [creditRemoved, Cell.ended, CreditCall.offers, List.map_append, List.sum_append,
        List.map_cons, List.map_nil, List.sum_cons, List.sum_nil, List.filterMap_cons,
        List.filterMap_nil] at hpay hsum ⊢
      omega
    | consume exceed =>
      simp only [creditRemoved, Cell.ended, CreditCall.offers, List.map_append, List.sum_append,
        List.map_cons, List.map_nil, List.sum_cons, List.sum_nil, List.filterMap_cons,
        List.filterMap_nil] at hpay hsum ⊢
      omega
  · simp [Cell.start, creditRemoved, Cell.ended]

/-- What one step does to the cell: a swap of the call that then returns, or nothing. -/
structure CreditStep (s : Cell.State ι creditOps) (l : Cell.Label ι CreditCall) : Prop where
  /-- A consume that returns true takes its need off a value that covers it and the bound. -/
  consumed : ∀ i exceed old new,
    .took i (.consume exceed) old new ∈ (Cell.machine creditOps).out s l →
      old = s.cell ∧ ((Cell.machine creditOps).step s l).cell = new
      ∧ flowCreditNeed exceed ≤ old ∧ flowRedEmaxNs ≤ old ∧ new = old - flowCreditNeed exceed
  /-- An add whose swap took adds its delta up to the cap. -/
  added : ∀ i delta old new, .took i (.add delta) old new ∈ (Cell.machine creditOps).out s l →
    old = s.cell ∧ ((Cell.machine creditOps).step s l).cell = new
      ∧ new.toNat = min (old.toNat + delta.toNat) 1000000000
  /-- Nothing else changes the cell. -/
  kept : (∀ i c old new, .took i c old new ∉ (Cell.machine creditOps).out s l) →
    ((Cell.machine creditOps).step s l).cell = s.cell

theorem creditStep_of_cap {s : Cell.State ι creditOps} (h : s.cell.toNat ≤ 1000000000)
    (l : Cell.Label ι CreditCall) : CreditStep s l := by
  rcases Cell.step_cases s l with ⟨hc, hn⟩ | ⟨i, c, new, -, ho, -, he, hc, -⟩
  · exact ⟨fun i e old new h => absurd h (hn _ _ _ _), fun i d old new h => absurd h (hn _ _ _ _),
      fun _ => hc⟩
  · have hout : (Cell.machine creditOps).out s l = [.took i c s.cell new] := he
    have hstep : ((Cell.machine creditOps).step s l).cell = new := hc
    refine ⟨?_, ?_, fun hn => ?_⟩
    · intro j exceed old new' hm
      rw [hout, List.mem_singleton] at hm
      cases hm
      obtain ⟨hneed, hemax, hnew⟩ := flowCreditConsume_eq_some.mp ho
      exact ⟨rfl, hstep, hneed, hemax, hnew⟩
    · intro j delta old new' hm
      rw [hout, List.mem_singleton] at hm
      cases hm
      obtain rfl : flowCreditAdd s.cell delta = new := Option.some.inj ho
      exact ⟨rfl, hstep, flowCreditAdd_toNat delta h⟩
    · rw [hout] at hn
      exact absurd (List.mem_singleton_self _) (hn i c s.cell new)

/-- The credit cell over every interleaving of any number of CPUs. -/
theorem credit_cell_safe (ls : List (Cell.Label ι CreditCall)) :
    ((Cell.machine creditOps).exec (Cell.start creditOps ι 0) ls).cell ≤ flowPredMaxNs
    ∧ (Cell.machine creditOps).Along CreditStep (Cell.start creditOps ι 0) ls
    ∧ (∀ pre mid post i c, ls = pre ++ (mid ++ post) →
        ((Cell.machine creditOps).log ((Cell.machine creditOps).exec (Cell.start creditOps ι 0) pre)
          mid).filter (fun e => e.party = i) = [.called i c, .gave i c] →
        (Cell.machine creditOps).Along
          (fun s l => l.party = i → ((Cell.machine creditOps).step s l).cell = s.cell)
          ((Cell.machine creditOps).exec (Cell.start creditOps ι 0) pre) mid)
    ∧ creditRemoved ((Cell.machine creditOps).log (Cell.start creditOps ι 0) ls)
      ≤ creditOffered ((Cell.machine creditOps).log (Cell.start creditOps ι 0) ls) := by
  obtain ⟨hcap, hpaid⟩ := credit_invariant ls
  refine ⟨?_, ?_, ?_, ?_⟩
  · rw [UInt64.le_iff_toNat_le]
    exact hcap
  · rw [Machine.along_iff]
    rintro pre l post rfl
    exact creditStep_of_cap (credit_invariant pre).1 l
  · rintro pre mid post i c - h
    exact Cell.cell_of_failed h
  · have hoff := Cell.sum_ended_le (O := creditOps) (0 : UInt64) ls fun x => x.2.offers
    unfold creditOffered
    omega

/-- Without a race the calls are the two functions the ops of the scheduler run. -/
theorem creditOps_alone (s : Cell.State ι creditOps) (i : ι) (hi : s.phase i = .idle) :
    (∀ delta, delta ≠ 0 →
      ((Cell.machine creditOps).exec s [.call i (.add delta), .tick i, .tick i]).cell
        = flowCreditAdd s.cell delta)
    ∧ ∀ exceed,
      ((Cell.machine creditOps).exec s [.call i (.consume exceed), .tick i, .tick i]).cell
        = (flowCreditConsume s.cell exceed).getD s.cell := by
  refine ⟨fun delta hd => ?_, fun exceed => ?_⟩
  · exact Cell.exec_alone s i (.add delta) hi (by simp [creditOps, hd])
  · exact Cell.exec_alone s i (.consume exceed) hi (by simp [creditOps])

end Interleaved

end ScxFlow
