import ScxFlow.Proofs.Windows
import ScxFlow.Lib.Least
import Mathlib.Data.Prod.Lex

/-!
# The order of the select scans

Where every CPU has the same capacity both scans keep the lesser of two peers in a lexicographic
order, so each picks the least CPU of its window that passes the gates, in whatever order it comes
to them.
-/

namespace ScxFlow

variable {w : World} {cap : ℕ → UInt32} {t : FlowScanTail}

/-- The tie order: the previous CPU first, then the id. -/
def tieKey (prevCpu : ℤ) (c : ℕ) : ℕ ×ₗ ℕ := toLex (if (c : ℤ) = prevCpu then 0 else 1, c)

/-- The order of the first scan: the waker's node first, then the minimum, then the tie order. -/
def ssfKey (w : World) (t : FlowScanTail) (c : ℕ) : ℕ ×ₗ ℕ ×ₗ ℕ ×ₗ ℕ :=
  toLex (if flowCpuNode w c = flowCpuNode w t.thisCpu then 0 else 1,
    toLex ((flowCpuMin w c).toNat, tieKey t.prevCpu c))

/-- The order of the second scan: the drain, then the minimum, then the tie order. -/
def bsfKey (w : World) (t : FlowScanTail) (c : ℕ) : ℕ ×ₗ ℕ ×ₗ ℕ ×ₗ ℕ :=
  toLex ((flowCpuDrain w c).1.toNat, toLex ((flowCpuMin w c).toNat, tieKey t.prevCpu c))

theorem tieKey_injective (prevCpu : ℤ) : Function.Injective (tieKey prevCpu) := fun _ _ h =>
  congrArg (fun k => (ofLex k).2) h

theorem ssfKey_injective (w : World) (t : FlowScanTail) : Function.Injective (ssfKey w t) :=
  fun _ _ h => tieKey_injective t.prevCpu (congrArg (fun k => (ofLex (ofLex k).2).2) h)

theorem bsfKey_injective (w : World) (t : FlowScanTail) : Function.Injective (bsfKey w t) :=
  fun _ _ h => tieKey_injective t.prevCpu (congrArg (fun k => (ofLex (ofLex k).2).2) h)

section Compare

theorem tieWins_iff {prevCpu : ℤ} {peer best : ℕ} :
    tieWins prevCpu peer best = true ↔ tieKey prevCpu peer < tieKey prevCpu best := by
  unfold tieWins tieKey
  rw [Prod.Lex.toLex_lt_toLex]
  by_cases hp : (peer : ℤ) = prevCpu
  · by_cases hb : (best : ℤ) = prevCpu
    · simp [hp, hb]
    · simp [hp, hb]
  · by_cases hb : (best : ℤ) = prevCpu
    · simp [hp, hb]
    · simp [hp, hb]

/-- The last two comparisons of both scans: minima less than half the ring apart, then the tie. -/
theorem ite_min_tie {β : Type} (prevCpu : ℤ) (peer best : ℕ) {a b : UInt64} (x y : β)
    (hab : a.toNat < b.toNat + 2 ^ 63) (hba : b.toNat < a.toNat + 2 ^ 63) :
    (if !flowTimeBefore a b && decide (a ≠ b) then y
      else if decide (a = b) && !tieWins prevCpu peer best then y else x)
      = if toLex (a.toNat, tieKey prevCpu peer) < toLex (b.toNat, tieKey prevCpu best) then x
        else y := by
  simp only [Prod.Lex.toLex_lt_toLex]
  rcases lt_trichotomy a.toNat b.toNat with hlt | heq | hgt
  · have hbefore := flowTimeBefore_of_lt hlt (by omega)
    have hne : a ≠ b := fun h => by rw [h] at hlt; exact lt_irrefl _ hlt
    simp [hbefore, hne, hlt]
  · have he : a = b := UInt64.toNat_inj.mp heq
    subst he
    by_cases htie : tieWins prevCpu peer best = true
    · simp [htie, tieWins_iff.mp htie]
    · simp [htie, mt tieWins_iff.mpr htie]
  · have hbefore := not_flowTimeBefore_of_le hgt.le (by omega)
    have hne : a ≠ b := fun h => by rw [h] at hgt; exact lt_irrefl _ hgt
    have hlt : ¬a.toNat < b.toNat := by omega
    have hneq : a.toNat ≠ b.toNat := by omega
    simp [hbefore, hne, hlt, hneq]

/-- The minima of the host stay within half the ring of each other. -/
def MinimaNear (w : World) : Prop :=
  ∀ a < w.nrCpuIds, ∀ b < w.nrCpuIds,
    (flowCpuMin w a).toNat < (flowCpuMin w b).toNat + 2 ^ 63

/-- The first scan keeps the lesser of two peers of one capacity. -/
theorem ssfTake_eq {b p : ℕ} (hunits : flowCpuUnits cap p = flowCpuUnits cap b)
    (hpb : (flowCpuMin w p).toNat < (flowCpuMin w b).toNat + 2 ^ 63)
    (hbp : (flowCpuMin w b).toNat < (flowCpuMin w p).toNat + 2 ^ 63) :
    ssfTake t.prevCpu (some (ssfRow w cap t b)) (ssfRow w cap t p)
      = ssfRow w cap t (if ssfKey w t p < ssfKey w t b then p else b) := by
  have hadd : (flowCpuUnits cap b).toUInt64.toNat ≤ ((flowCpuUnits cap b).toUInt64 + 64).toNat := by
    rw [toNat_cursor_add _ (by decide), UInt32.toNat_toUInt64]
    exact Nat.le_add_right _ _
  have hslow : ¬(flowCpuUnits cap b).toUInt64 + 64 < (flowCpuUnits cap b).toUInt64 := by
    rw [UInt64.lt_iff_toNat_lt]
    omega
  have hfast : ¬(flowCpuUnits cap b).toUInt64 > (flowCpuUnits cap b).toUInt64 + 64 := by
    rw [gt_iff_lt, UInt64.lt_iff_toNat_lt]
    omega
  have htie := ite_min_tie t.prevCpu p b (ssfRow w cap t p) (ssfRow w cap t b) hpb hbp
  unfold ssfTake ssfKey
  rw [apply_ite (ssfRow w cap t)]
  simp only [Prod.Lex.toLex_lt_toLex (x := (_, toLex _))]
  by_cases hp : flowCpuNode w p = flowCpuNode w t.thisCpu
  · by_cases hb : flowCpuNode w b = flowCpuNode w t.thisCpu
    · simpa [ssfRow, hunits, hslow, hfast, hp, hb] using htie
    · simp [ssfRow, hunits, hslow, hp, hb]
  · by_cases hb : flowCpuNode w b = flowCpuNode w t.thisCpu
    · simp [ssfRow, hunits, hslow, hp, hb]
    · simpa [ssfRow, hunits, hslow, hfast, hp, hb] using htie

/-- The second scan keeps the lesser of two peers. -/
theorem bsfTake_eq {b p : ℕ} (hpb : (flowCpuMin w p).toNat < (flowCpuMin w b).toNat + 2 ^ 63)
    (hbp : (flowCpuMin w b).toNat < (flowCpuMin w p).toNat + 2 ^ 63) :
    bsfTake t.prevCpu (some (bsfRow w b)) (bsfRow w p)
      = bsfRow w (if bsfKey w t p < bsfKey w t b then p else b) := by
  have htie := ite_min_tie t.prevCpu p b (bsfRow w p) (bsfRow w b) hpb hbp
  unfold bsfTake bsfKey
  rw [apply_ite (bsfRow w)]
  simp only [Prod.Lex.toLex_lt_toLex (x := (_, toLex _))]
  rcases lt_trichotomy (flowCpuDrain w p).1.toNat (flowCpuDrain w b).1.toNat with hlt | heq | hgt
  · have hless : (flowCpuDrain w p).1 < (flowCpuDrain w b).1 := UInt64.lt_iff_toNat_lt.mpr hlt
    simp [bsfRow, hless, hlt]
  · have he : (flowCpuDrain w p).1 = (flowCpuDrain w b).1 := UInt64.toNat_inj.mp heq
    simpa [bsfRow, he, and_comm] using htie
  · have hnot : ¬(flowCpuDrain w p).1 < (flowCpuDrain w b).1 := by
      rw [UInt64.lt_iff_toNat_lt]
      omega
    have hne : (flowCpuDrain w p).1 ≠ (flowCpuDrain w b).1 := fun h => by
      rw [h] at hgt
      exact lt_irrefl _ hgt
    simp [bsfRow, hnot, hne, hgt.not_gt, hgt.ne']

end Compare

/-- The best of a scan is a fold over the peers past its gate. -/
theorem foldl_scanVisit_best {α : Type} (gate : ℕ → Bool) (take : Option α → ℕ → α) :
    ∀ (l : List ℕ) (s : ScanState α),
      (l.foldl (scanVisit gate take) s).best
        = l.foldl (fun best peer => if gate peer then some (take best peer) else best) s.best
  | [], _ => rfl
  | peer :: l, s => by
    rw [List.foldl_cons, foldl_scanVisit_best gate take l, List.foldl_cons]
    unfold scanVisit
    cases gate peer <;> rfl

/-- A scan over peers of the host whose comparison keeps the lesser key ends with the least. -/
theorem scanned_eq_argmin {α β : Type} [LinearOrder β] {gate : ℕ → Bool}
    {take : Option α → ℕ → α} (row : ℕ → α) (key : ℕ → β) {P : ℕ → Prop}
    (hfirst : ∀ p, take none p = row p)
    (hnext : ∀ b p, P b → P p → take (some (row b)) p = row (if key p < key b then p else b))
    {l : List ℕ} (hl : ∀ p ∈ l, P p) (visited : List ℕ) :
    (l.foldl (scanVisit gate take) ⟨none, visited⟩).best
      = ((l.filter gate).argmin key).map row := by
  rw [foldl_scanVisit_best]
  refine Least.foldl_eq_argmin (P := P) ?_ ?_ ?_ hl
  · intro s a hg
    simp [hg]
  · intro a _ hg
    simp [hg, hfirst]
  · intro b a hb ha hg
    simp [hg, hnext b a hb ha]

/-- All CPUs of the host have the capacity `flow_init` seeds, or any other one in common. -/
def CapacityEqual (w : World) (cap : ℕ → UInt32) : Prop :=
  ∀ a < w.nrCpuIds, ∀ b < w.nrCpuIds, cap a = cap b

theorem capacityEqual_initCap (hle : w.nrCpuIds ≤ flowMaxCpus) (cap : ℕ → UInt32) :
    CapacityEqual w (initCap w.nrCpuIds cap) := by
  intro a ha b hb
  unfold initCap
  rw [if_pos ⟨ha, ha.trans_le hle⟩, if_pos ⟨hb, hb.trans_le hle⟩]

section Symmetric
variable {l : List ℕ}

theorem foldl_ssfVisit_eq (hle : w.nrCpuIds ≤ flowMaxCpus) (hcap : CapacityEqual w cap)
    (hmin : MinimaNear w) (hl : ∀ p ∈ l, p < w.nrCpuIds) :
    ((l.foldl (ssfVisit w cap t) ⟨none, []⟩).best.map SsfBest.cpu)
      = (l.filter (scanGate w t)).argmin (ssfKey w t) := by
  have hunits : ∀ a < w.nrCpuIds, ∀ b < w.nrCpuIds,
      flowCpuUnits cap a = flowCpuUnits cap b := by
    intro a ha b hb
    unfold flowCpuUnits
    rw [if_neg (ha.trans_le hle).not_ge, if_neg (hb.trans_le hle).not_ge, hcap a ha b hb]
  unfold ssfVisit
  rw [scanned_eq_argmin (ssfRow w cap t) (ssfKey w t) (P := (· < w.nrCpuIds))
    (fun _ => rfl)
    (fun b p hb hp => ssfTake_eq (hunits p hp b hb) (hmin p hp b hb) (hmin b hb p hp)) hl,
    Option.map_map]
  exact Option.map_id'

theorem foldl_bsfVisit_eq (hmin : MinimaNear w) (hl : ∀ p ∈ l, p < w.nrCpuIds) :
    ((l.foldl (bsfVisit w t) ⟨none, []⟩).best.map BsfBest.cpu)
      = (l.filter (scanGate w t)).argmin (bsfKey w t) := by
  unfold bsfVisit
  rw [scanned_eq_argmin (bsfRow w) (bsfKey w t) (P := (· < w.nrCpuIds))
    (fun _ => rfl) (fun b p hb hp => bsfTake_eq (hmin p hp b hb) (hmin b hb p hp)) hl,
    Option.map_map]
  exact Option.map_id'

end Symmetric

section Pick

/-- The CPUs of the first window past the gates of the scan. -/
def ssfCandidates (w : World) (t : FlowScanTail) : Set ℕ :=
  {c | (∃ i < min 8 w.nrCpuIds, (t.cursor.toNat + 1 + i) % w.nrCpuIds = c) ∧ c ≠ t.thisCpu
    ∧ flowCpuOk w t.ts c = true ∧ flowCpuMeets w c t.deadline t.now = true}

/-- The CPUs of the fallback window past the gates of the scan. -/
def bsfCandidates (w : World) (t : FlowScanTail) : Set ℕ :=
  {c | (∃ i < min 4 w.nrCpuIds, (t.cursor.toNat + 9 + i) % w.nrCpuIds = c) ∧ c ≠ t.thisCpu
    ∧ flowCpuOk w t.ts c = true ∧ flowCpuMeets w c t.deadline t.now = true}

theorem mem_ssfCandidates {c : ℕ} : c ∈ ssfCandidates w t
    ↔ c ∈ (ssfWindow w.nrCpuIds t.cursor.toNat).filter (scanGate w t) := by
  rw [List.mem_filter, scanGate_iff, ssfWindow, Ring.mem_window]
  rfl

theorem mem_bsfCandidates {c : ℕ} : c ∈ bsfCandidates w t
    ↔ c ∈ (bsfWindow w.nrCpuIds t.cursor.toNat).filter (scanGate w t) := by
  rw [List.mem_filter, scanGate_iff, bsfWindow, Ring.mem_window]
  rfl

theorem flowSsfPick_eq (hn : 2 ≤ w.nrCpuIds) (hle : w.nrCpuIds ≤ flowMaxCpus)
    (hcap : CapacityEqual w cap) (hmin : MinimaNear w) :
    flowSsfPick w cap t
      = ((ssfWindow w.nrCpuIds t.cursor.toNat).filter (scanGate w t)).argmin (ssfKey w t) := by
  unfold flowSsfPick
  rw [ssfScan_eq hn hle, foldl_ssfVisit_eq hle hcap hmin]
  exact fun p hp => Ring.lt_of_mem_window (by omega) hp

theorem flowBsfPick_eq (hn : 2 ≤ w.nrCpuIds) (hle : w.nrCpuIds ≤ flowMaxCpus)
    (hmin : MinimaNear w) :
    flowBsfPick w t
      = ((bsfWindow w.nrCpuIds t.cursor.toNat).filter (scanGate w t)).argmin (bsfKey w t) := by
  unfold flowBsfPick
  rw [bsfScan_eq hn hle, foldl_bsfVisit_eq hmin]
  exact fun p hp => Ring.lt_of_mem_window (by omega) hp

/-- The least of a nonempty set of candidates, which a list of them gives. -/
theorem exists_argmin {β : Type} [LinearOrder β] {key : ℕ → β} (hkey : Function.Injective key)
    {l : List ℕ} {S : Set ℕ} (hS : ∀ c, c ∈ S ↔ c ∈ l) (hne : S.Nonempty) :
    ∃ c, l.argmin key = some c ∧ c ∈ S ∧ ∀ d ∈ S, d ≠ c → key c < key d := by
  obtain ⟨d, hd⟩ := hne
  rcases h : l.argmin key with _ | c
  · rw [hS, List.argmin_eq_none.mp h] at hd
    exact absurd hd List.not_mem_nil
  · obtain ⟨hc, hlt⟩ := (Least.argmin_eq_some_iff hkey).mp h
    exact ⟨c, rfl, (hS c).mpr hc, fun e he => hlt e ((hS e).mp he)⟩

theorem argmin_eq_none_of_empty {β : Type} [LinearOrder β] {key : ℕ → β} {l : List ℕ}
    {S : Set ℕ} (hS : ∀ c, c ∈ S ↔ c ∈ l) (hempty : S = ∅) : l.argmin key = none := by
  refine List.argmin_eq_none.mpr (List.eq_nil_iff_forall_not_mem.mpr fun c hc => ?_)
  rw [← hS, hempty] at hc
  exact hc

/-- On a host of equal capacities `flow_select_best` picks the least CPU of the first window past
the gates, else of the fallback window, else none; and it would pick the same had it come to the
CPUs of each window in any other order, or more than once. -/
theorem flowSelectBest_least {ts : TaskStruct} {deadline now : UInt64} {thisCpu : ℕ} {prevCpu : ℤ}
    (hn : 2 ≤ w.nrCpuIds) (hle : w.nrCpuIds ≤ flowMaxCpus) (hcap : CapacityEqual w cap)
    (hmin : MinimaNear w) :
    let t := selectTail w ts deadline now thisCpu prevCpu
    let pick := (flowSelectBest w cap ts deadline now thisCpu prevCpu).1
    ((ssfCandidates w t).Nonempty → ∃ c, pick = some c ∧ c ∈ ssfCandidates w t
      ∧ ∀ d ∈ ssfCandidates w t, d ≠ c → ssfKey w t c < ssfKey w t d)
    ∧ (ssfCandidates w t = ∅ → (bsfCandidates w t).Nonempty → ∃ c, pick = some c
      ∧ c ∈ bsfCandidates w t ∧ ∀ d ∈ bsfCandidates w t, d ≠ c → bsfKey w t c < bsfKey w t d)
    ∧ (ssfCandidates w t = ∅ → bsfCandidates w t = ∅ → pick = none)
    ∧ ∀ near far : List ℕ, (∀ c, c ∈ near ↔ c ∈ (ssfScan w cap t).visited) →
      (∀ c, c ∈ far ↔ c ∈ (bsfScan w t).visited) →
      pick = ((near.foldl (ssfVisit w cap t) ⟨none, []⟩).best.map SsfBest.cpu).or
        ((far.foldl (bsfVisit w t) ⟨none, []⟩).best.map BsfBest.cpu) := by
  intro t pick
  have hssf := flowSsfPick_eq (t := t) hn hle hcap hmin
  have hbsf := flowBsfPick_eq (t := t) hn hle hmin
  have hpick : pick = (flowSsfPick w cap t).or (flowBsfPick w t) := flowSelectBest_fst ..
  rw [hssf, hbsf] at hpick
  have hnear := fun c => mem_ssfCandidates (w := w) (t := t) (c := c)
  have hfar := fun c => mem_bsfCandidates (w := w) (t := t) (c := c)
  refine ⟨fun hne => ?_, fun hempty hne => ?_, fun hempty hempty' => ?_, fun near far hn' hf => ?_⟩
  · obtain ⟨c, hc, hleast⟩ := exists_argmin (ssfKey_injective w t) hnear hne
    exact ⟨c, by rw [hpick, hc, Option.some_or], hleast⟩
  · obtain ⟨c, hc, hleast⟩ := exists_argmin (bsfKey_injective w t) hfar hne
    exact ⟨c, by rw [hpick, argmin_eq_none_of_empty hnear hempty, Option.none_or, hc], hleast⟩
  · rw [hpick, argmin_eq_none_of_empty hnear hempty, argmin_eq_none_of_empty hfar hempty',
      Option.none_or]
  · rw [ssfScan_visited hn hle] at hn'
    rw [bsfScan_visited hn hle] at hf
    rw [foldl_ssfVisit_eq hle hcap hmin
        fun p hp => Ring.lt_of_mem_window (by omega) ((hn' p).mp hp),
      foldl_bsfVisit_eq hmin fun p hp => Ring.lt_of_mem_window (by omega) ((hf p).mp hp), hpick]
    congr 1
    · refine Least.argmin_congr (ssfKey_injective w t) fun c => ?_
      rw [List.mem_filter, List.mem_filter, hn']
    · refine Least.argmin_congr (bsfKey_injective w t) fun c => ?_
      rw [List.mem_filter, List.mem_filter, hf]

/-- Four CPUs on two nodes, as attached. -/
def World.twoNodes : World := World.boot 4 2 fun cpu => cpu % 2

theorem flowSelectBest_least_two_nodes :
    (ssfCandidates .twoNodes (selectTail .twoNodes (.plain 0) 0 0 0 3)).Nonempty
    ∧ ∃ c, (flowSelectBest .twoNodes (initCap 4 fun _ => 0) (.plain 0) 0 0 0 3).1 = some c
      ∧ c ∈ ssfCandidates .twoNodes (selectTail .twoNodes (.plain 0) 0 0 0 3)
      ∧ ∀ d ∈ ssfCandidates .twoNodes (selectTail .twoNodes (.plain 0) 0 0 0 3), d ≠ c →
        ssfKey .twoNodes (selectTail .twoNodes (.plain 0) 0 0 0 3) c
          < ssfKey .twoNodes (selectTail .twoNodes (.plain 0) 0 0 0 3) d := by
  have hne : (ssfCandidates .twoNodes (selectTail .twoNodes (.plain 0) 0 0 0 3)).Nonempty :=
    ⟨1, ⟨0, by decide, rfl⟩, by decide, rfl, rfl⟩
  have hmin : MinimaNear .twoNodes := fun a _ b _ => by
    have hz (c : ℕ) : (flowCpuMin .twoNodes c).toNat = 0 := by
      unfold flowCpuMin flowCpu
      split_ifs <;> rfl
    rw [hz, hz]
    decide
  exact ⟨hne, (flowSelectBest_least (w := .twoNodes) (by decide) (by decide)
    (capacityEqual_initCap (by decide) _) hmin).1 hne⟩

end Pick

end ScxFlow
