import ScxFlow.Lib.Contend
import ScxFlow.Proofs.QueueOrder

/-!
# The minimum of a CPU under races

`flow_min_advance` as a call on the row's minimum behind compare and swap, from any number of CPUs.
Whatever the order of their reads and swaps, the minimum only moves forward, to values the calls
brought, and a call that returns leaves its value behind the minimum or lost all four tries to
four other calls (`minCell_forward`).
-/

namespace ScxFlow

variable {base : UInt64}

/-- The loop of `flow_min_advance` on the value it read: four tries, none for a zero vruntime. -/
def minOps : CellOps UInt64 UInt64 where
  tries vruntime := if vruntime = 0 then 0 else 4
  offer vruntime cur :=
    if cur = vruntime then none
    else if !flowTimeBefore cur vruntime then none
    else some vruntime

/-- How far a ledger is past `base`. -/
def past (base v : UInt64) : ℕ := (v - base).toNat

theorem minOps_offer_eq {v cur new : UInt64} (h : minOps.offer v cur = some new) : new = v := by
  simp only [minOps] at h
  split_ifs at h
  exact (Option.some.inj h).symm

/-- A call offers its value only over one before it. -/
theorem minOps_offer_past {v cur new : UInt64} (hv : KeyNear base v) (hcur : KeyNear base cur)
    (h : minOps.offer v cur = some new) : past base cur < past base v := by
  simp only [minOps] at h
  split_ifs at h with heq hle
  rw [Bool.not_eq_true', Bool.not_eq_false] at hle
  exact (flowTimeBefore_near hcur hv).mp hle

/-- A call that offers nothing finds its value at or behind the minimum. -/
theorem minOps_offer_none {v cur : UInt64} (hv : KeyNear base v) (hcur : KeyNear base cur)
    (h : minOps.offer v cur = none) : past base v ≤ past base cur := by
  simp only [minOps] at h
  split_ifs at h with heq hle
  · rw [heq]
  · rw [Bool.not_eq_true', ← Bool.not_eq_true, flowTimeBefore_near hcur hv] at hle
    exact Nat.le_of_not_lt hle

variable {ι : Type*} [DecidableEq ι]

/-- The minimum and the calls under way have a property. -/
structure Brings (P : UInt64 → Prop) (s : Cell.State ι minOps) : Prop where
  cell : P s.cell
  calls : ∀ i v, (s.phase i).call = some v → P v

/-- The minimum only ever holds what a call brought. -/
theorem run_brings {P : UInt64 → Prop} {s : Cell.State ι minOps}
    {ls : List (Cell.Label ι UInt64)} (h : Brings P s) (hls : ∀ i v, .call i v ∈ ls → P v) :
    Brings P ((Cell.machine minOps).exec s ls) := by
  refine (Cell.machine minOps).exec_keeps ls (fun s l hl hs => ⟨?_, fun i v hv => ?_⟩) h
  · rcases Cell.step_cases s l with ⟨hc, -⟩ | ⟨i, c, new, -, ho, hcall, -, hc, -⟩
    · exact hc.symm ▸ hs.cell
    · obtain rfl := minOps_offer_eq ho
      exact hc.symm ▸ hs.calls i _ hcall
  · exact (Cell.step_call hv).elim (hs.calls i v) fun he => hls i v (he ▸ hl)

/-- One step moves the minimum forward. -/
theorem step_past {s : Cell.State ι minOps} (h : Brings (KeyNear base) s)
    (l : Cell.Label ι UInt64) :
    past base s.cell ≤ past base ((Cell.machine minOps).step s l).cell := by
  rcases Cell.step_cases s l with ⟨hc, -⟩ | ⟨i, c, new, -, ho, hcall, -, hc, -⟩
  · exact (congrArg (past base) hc).ge
  · have hlt := minOps_offer_past (h.calls i c hcall) h.cell ho
    obtain rfl := minOps_offer_eq ho
    exact hlt.le.trans (congrArg (past base) hc).ge

theorem run_past {s : Cell.State ι minOps} (h : Brings (KeyNear base) s) :
    ∀ ls : List (Cell.Label ι UInt64), (∀ i v, .call i v ∈ ls → KeyNear base v) →
      past base s.cell ≤ past base ((Cell.machine minOps).exec s ls).cell
  | [], _ => le_rfl
  | l :: ls, hls => by
    have hone : ∀ i v, .call i v ∈ [l] → KeyNear base v := fun i v he =>
      hls i v (List.mem_cons.mpr (Or.inl (List.mem_singleton.mp he)))
    have hnext : Brings (KeyNear base) ((Cell.machine minOps).step s l) := run_brings h hone
    exact (step_past h l).trans
      (run_past hnext ls fun i v he => hls i v (List.mem_cons_of_mem l he))

/-- Under any interleaving of any number of folds the minimum moves forward only, to a value one of
them brought, and a fold that returns is at or behind it, or lost its four tries to four others. -/
theorem minCell_forward (base v₀ : UInt64) (hv₀ : KeyNear base v₀)
    (ls : List (Cell.Label ι UInt64)) (hls : ∀ i v, .call i v ∈ ls → KeyNear base v) :
    let M := Cell.machine minOps
    let s := Cell.start minOps ι v₀
    let least := (M.exec s ls).cell
    (∀ pre post, ls = pre ++ post → past base (M.exec s pre).cell ≤ past base least)
      ∧ (least = v₀ ∨ ∃ i, .call i least ∈ ls)
      ∧ (∀ i v old new, .took i v old new ∈ M.log s ls → new = v ∧ past base v ≤ past base least)
      ∧ ∀ pre l post i v, ls = pre ++ l :: post → .gave i v ∈ M.out (M.exec s pre) l →
        v = 0 ∨ past base v ≤ past base least ∨ 4 ≤ Cell.tookSince i (M.log s pre) := by
  intro M s least
  have hstart {P : UInt64 → Prop} (h : P v₀) : Brings P s := ⟨h, fun i v hv => nomatch hv⟩
  have hmono : ∀ pre post, ls = pre ++ post → Brings (KeyNear base) (M.exec s pre)
      ∧ past base (M.exec s pre).cell ≤ past base least := by
    rintro pre post rfl
    have hpre := run_brings (hstart hv₀) fun i v he => hls i v (List.mem_append_left post he)
    refine ⟨hpre, ?_⟩
    have hrest := run_past hpre post fun i v he => hls i v (List.mem_append_right pre he)
    rwa [← Machine.exec_append] at hrest
  refine ⟨fun pre post he => (hmono pre post he).2, ?_, ?_, ?_⟩
  · have hbrings := run_brings (P := fun v => v = v₀ ∨ ∃ i, .call i v ∈ ls) (hstart (Or.inl rfl))
      fun i v he => Or.inr ⟨i, he⟩
    exact hbrings.cell
  · intro i v old new htook
    obtain ⟨pre, l, post, he, hout⟩ := M.mem_log htook
    have hle := (hmono (pre ++ [l]) post (by rw [he, List.append_assoc]; rfl)).2
    rw [M.exec_snoc] at hle
    rcases Cell.step_cases (M.exec s pre) l with ⟨-, hn⟩ | ⟨j, c, new', -, ho, -, hlog, hc, -⟩
    · exact absurd hout (hn i v old new)
    · have hmem : Cell.Event.took i v old new ∈ [.took j c (M.exec s pre).cell new'] := hlog ▸ hout
      cases List.mem_singleton.mp hmem
      obtain rfl := minOps_offer_eq ho
      exact ⟨rfl, (congrArg (past base) hc).ge.trans hle⟩
  · intro pre l post i v he hgave
    obtain ⟨hpre, hle⟩ := hmono pre (l :: post) he
    rcases Cell.gave_cases hgave with ⟨hcall, hnone⟩ | htries
    · exact Or.inr (Or.inl ((minOps_offer_none (hpre.calls i v hcall) hpre.cell hnone).trans hle))
    · by_cases h0 : v = 0
      · exact Or.inl h0
      · exact Or.inr (Or.inr ((if_neg h0).ge.trans htries))

/-- The first CPU reads, loses its swap to the second, and tries again. -/
def lostOnce : List (Cell.Label Bool UInt64) :=
  [.call false 9, .tick false, .call true 5, .tick true, .tick true, .tick false, .tick false,
    .tick false]

theorem minCell_forward_lostOnce :
    let M := Cell.machine minOps
    let s := Cell.start minOps Bool 3
    let least := (M.exec s lostOnce).cell
    (∀ pre post, lostOnce = pre ++ post → past 0 (M.exec s pre).cell ≤ past 0 least)
      ∧ (least = 3 ∨ ∃ i, .call i least ∈ lostOnce)
      ∧ (∀ i v old new, .took i v old new ∈ M.log s lostOnce →
        new = v ∧ past 0 v ≤ past 0 least)
      ∧ ∀ pre l post i v, lostOnce = pre ++ l :: post → .gave i v ∈ M.out (M.exec s pre) l →
        v = 0 ∨ past 0 v ≤ past 0 least ∨ 4 ≤ Cell.tookSince i (M.log s pre) :=
  minCell_forward 0 3 (by decide) lostOnce (by
    intro i v h
    simp only [lostOnce, List.mem_cons, Cell.Label.call.injEq, reduceCtorEq, List.not_mem_nil,
      or_false, false_or] at h
    rcases h with ⟨-, rfl⟩ | ⟨-, rfl⟩
    · decide
    · decide)

/-- Without a race the loop is the fold the ops of the scheduler run. -/
theorem minOps_alone {w : World} {cpu : ℕ} (hl : flowCpuLive w cpu = true) {v : UInt64}
    (hv : v ≠ 0) (s : Cell.State ι minOps) (i : ι) (hi : s.phase i = .idle)
    (hs : s.cell = (w.cpuState cpu).minVruntime) :
    ((Cell.machine minOps).exec s [.call i v, .tick i, .tick i]).cell
      = ((flowMinAdvance w cpu v).cpuState cpu).minVruntime := by
  rw [Cell.exec_alone s i v hi (by simp [minOps, hv])]
  have hcpu : ¬ (cpu : ℤ) < 0 := by omega
  unfold flowMinAdvance
  simp only [minOps, hcpu, hv, hl, hs, Int.toNat_natCast, Bool.not_true, Bool.false_eq_true,
    ↓reduceIte]
  split
  · rfl
  · split
    · rfl
    · simp [World.setCpu]

end ScxFlow
