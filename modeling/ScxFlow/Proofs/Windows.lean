import ScxFlow.Select
import ScxFlow.Proofs.StealScan
import ScxFlow.System
import Mathlib.Data.List.Find

/-!
# The windows of the scans

The masks and the remainders of the scans agree on machine words, so a scan comes to the CPUs of a
window on the ring of `n` CPUs behind its cursor, in order.
-/

namespace ScxFlow

theorem toNat_sub_one {n : UInt64} (hn : n ≠ 0) : (n - 1).toNat = n.toNat - 1 := by
  have hpos := toNat_pos_iff.mpr hn
  exact toNat_sub_of_le (by rwa [UInt64.toNat_one])

theorem isPow2Word_eq (n : UInt64) : isPow2Word n = flowIsPow2 n.toNat := by
  unfold isPow2Word flowIsPow2
  refine decide_eq_decide.mpr (and_congr (by rw [← toNat_pos_iff, Nat.pos_iff_ne_zero]) ?_)
  rcases eq_or_ne n 0 with rfl | hn
  · simp
  · rw [← UInt64.toNat_inj, UInt64.toNat_and, toNat_sub_one hn, UInt64.toNat_zero]

/-- Both branches of the wrap are the remainder, where the mask is used on powers of two only. -/
theorem maskOrMod_toNat (pow2 : Bool) (base : UInt64) {n : UInt32} (hn : n ≠ 0)
    (hp : pow2 = true → flowIsPow2 n.toNat = true) :
    (maskOrMod pow2 base n).toNat = base.toNat % n.toNat := by
  have hpos : 0 < n.toNat := Nat.pos_of_ne_zero fun h => hn (UInt32.toNat_inj.mp h)
  have hn64 : n.toUInt64 ≠ 0 := toNat_pos_iff.mp (by simpa using hpos)
  have hlt : base.toNat % n.toNat < 2 ^ 32 := (Nat.mod_lt _ hpos).trans n.toNat_lt
  cases pow2 with
  | false =>
    show ((base % n.toUInt64).toUInt32).toNat = _
    rw [UInt64.toNat_toUInt32, UInt64.toNat_mod, UInt32.toNat_toUInt64, Nat.mod_eq_of_lt hlt]
  | true =>
    have hmask : base.toNat &&& (n.toNat - 1) = base.toNat % n.toNat := by
      rw [← flowWrapIdx_eq _ hpos.ne', flowWrapIdx, if_neg hpos.ne', if_pos (hp rfl)]
    show ((base &&& (n.toUInt64 - 1)).toUInt32).toNat = _
    rw [UInt64.toNat_toUInt32, UInt64.toNat_and, toNat_sub_one hn64, UInt32.toNat_toUInt64, hmask,
      Nat.mod_eq_of_lt hlt]

theorem wrapIdxWord_toNat (base : UInt64) {n : UInt32} (hn : n ≠ 0) :
    (wrapIdxWord base n).toNat = base.toNat % n.toNat := by
  have h := maskOrMod_toNat (isPow2Word n.toUInt64) base hn
    fun hp => by rwa [isPow2Word_eq, UInt32.toNat_toUInt64] at hp
  unfold maskOrMod at h
  unfold wrapIdxWord
  rw [if_neg hn, h]

/-- The word form of `flow_wrap_idx` is the number form the steal is modelled with. -/
theorem wrapIdxWord_eq (base : UInt64) (n : UInt32) :
    (wrapIdxWord base n).toNat = flowWrapIdx base.toNat n.toNat := by
  rcases eq_or_ne n 0 with rfl | hn
  · rfl
  · rw [wrapIdxWord_toNat base hn, flowWrapIdx_eq]
    exact fun h => hn (UInt32.toNat_inj.mp h)

section Host
variable {pow2 : Bool} {n : UInt32}

/-- A cursor, a stale one too, leaves room for the small steps added to it. -/
theorem toNat_cursor_add (cursor : UInt32) {k : UInt64} (hk : k.toNat < 2 ^ 32) :
    (cursor.toUInt64 + k).toNat = cursor.toNat + k.toNat := by
  have hc := cursor.toNat_lt
  rw [UInt64.toNat_add, UInt32.toNat_toUInt64, Nat.mod_eq_of_lt (by omega)]

theorem scanStart_toNat (hn : n ≠ 0) (hp : pow2 = true → flowIsPow2 n.toNat = true)
    (cursor : UInt32) : (scanStart pow2 cursor n).toNat = (cursor.toNat + 1) % n.toNat := by
  unfold scanStart
  rw [maskOrMod_toNat _ _ hn hp, toNat_cursor_add cursor (by decide)]
  rfl

theorem bsfStart_toNat (hn : n ≠ 0) (hp : pow2 = true → flowIsPow2 n.toNat = true)
    (cursor : UInt32) : (bsfStart pow2 cursor n).toNat = (cursor.toNat + 9) % n.toNat := by
  unfold bsfStart
  rw [maskOrMod_toNat _ _ hn hp, toNat_cursor_add _ (by decide), scanStart_toNat hn hp]
  show ((cursor.toNat + 1) % n.toNat + 8) % n.toNat = _
  rw [Nat.mod_add_mod]

theorem selectNext_toNat (hn : n ≠ 0) (hp : pow2 = true → flowIsPow2 n.toNat = true)
    (cursor : UInt32) : (selectNext pow2 cursor n).toNat = (cursor.toNat + 2) % n.toNat := by
  unfold selectNext
  rw [maskOrMod_toNat _ _ hn hp, toNat_cursor_add _ (by decide), scanStart_toNat hn hp]
  show ((cursor.toNat + 1) % n.toNat + 1) % n.toNat = _
  rw [Nat.mod_add_mod]

theorem stealNext_toNat (hn : n ≠ 0) (cursor : UInt32) :
    (stealNext cursor n).toNat = (cursor.toNat + 2) % n.toNat := by
  unfold stealNext
  rw [wrapIdxWord_toNat _ hn, toNat_cursor_add cursor (by decide)]
  rfl

theorem scanPeer_toNat (hn : n ≠ 0) (hp : pow2 = true → flowIsPow2 n.toNat = true)
    (start idx : UInt32) :
    (scanPeer pow2 start n idx).toNat = (start.toNat + idx.toNat) % n.toNat := by
  have hi := idx.toNat_lt
  unfold scanPeer
  rw [maskOrMod_toNat _ _ hn hp, toNat_cursor_add start (by rwa [UInt32.toNat_toUInt64]),
    UInt32.toNat_toUInt64]

end Host

theorem toNat_hostWord {n : ℕ} (h : n ≤ flowMaxCpus) : (UInt32.ofNat n).toNat = n :=
  UInt32.toNat_ofNat_of_lt' (h.trans_lt (by decide))

theorem hostWord_ne_zero {n : ℕ} (hn : 2 ≤ n) (hle : n ≤ flowMaxCpus) : UInt32.ofNat n ≠ 0 := by
  intro h
  have hnat := toNat_hostWord hle
  rw [h, UInt32.toNat_zero] at hnat
  omega

/-- The hoisted test takes the mask on powers of two only. -/
theorem flowIsPow2_of_word {n : UInt32} (h : isPow2Word n.toUInt64 = true) :
    flowIsPow2 n.toNat = true := by
  rwa [isPow2Word_eq, UInt32.toNat_toUInt64] at h

/-- The window of `flow_ssf_pick` behind a cursor. -/
def ssfWindow (n cursor : ℕ) : List ℕ := Ring.window n (cursor + 1) (min flowDispatchMaxVisit n)

/-- The window of `flow_bsf_pick` behind a cursor. -/
def bsfWindow (n cursor : ℕ) : List ℕ := Ring.window n (cursor + 9) (min flowBsfMaxPeers n)

section Scans
variable {α : Type} {w : World} {cap : ℕ → UInt32} {t : FlowScanTail}

/-- A loop over fewer offsets than the word holds visits the window behind its start in order. -/
theorem scanLoop_eq (hn : 2 ≤ w.nrCpuIds) (hle : w.nrCpuIds ≤ flowMaxCpus)
    {startOf : Bool → UInt32 → UInt32} {base : ℕ} {count : ℕ} (hcount : count ≤ flowMaxCpus)
    (hstart : ∀ {pow2 n}, n ≠ 0 → (pow2 = true → flowIsPow2 n.toNat = true) →
      (startOf pow2 n).toNat = base % n.toNat)
    (visit : ScanState α → ℕ → ScanState α) :
    scanLoop w startOf (scanStep visit) count
      = (Ring.window w.nrCpuIds base (min count w.nrCpuIds)).foldl visit ⟨none, []⟩ := by
  have hnat := toNat_hostWord hle
  have hn0 := hostWord_ne_zero hn hle
  set n := UInt32.ofNat w.nrCpuIds with hndef
  have hbound : ¬(w.nrCpuIds ≤ 1 ∨ w.nrCpuIds > flowMaxCpus) := by omega
  have hidx {i : ℕ} (hi : i < count) : (UInt32.ofNat i).toNat = i :=
    toNat_hostWord (hi.le.trans hcount)
  have hpast {i : ℕ} (hi : i < count) :
      (UInt32.ofNat i).toUInt64 ≥ n.toUInt64 ↔ w.nrCpuIds ≤ i := by
    rw [ge_iff_le, UInt64.le_iff_toNat_le, UInt32.toNat_toUInt64, UInt32.toNat_toUInt64, hidx hi,
      hnat]
  unfold scanLoop
  rw [if_neg hbound, Loop.calls_eq_foldl w.nrCpuIds fun i s => visit s ((base + i) % w.nrCpuIds)]
  · rw [Ring.window, List.foldl_map]
  · intro i hi s hlt
    show scanStep visit _ _ n _ s = _
    unfold scanStep
    rw [if_neg (by rw [hpast hi]; omega), scanPeer_toNat hn0 flowIsPow2_of_word,
      hstart hn0 flowIsPow2_of_word, hidx hi, hnat, Nat.mod_add_mod]
  · intro i hi s hge
    show scanStep visit _ _ n _ s = _
    unfold scanStep
    rw [if_pos ((hpast hi).mpr hge)]

/-- A scan that found a CPU ran on a host within the bounds. -/
theorem host_of_scanLoop {startOf : Bool → UInt32 → UInt32}
    {step : Bool → UInt32 → UInt32 → UInt32 → ScanState α → ScanState α × Bool} {count : ℕ} {b : α}
    (h : (scanLoop w startOf step count).best = some b) :
    2 ≤ w.nrCpuIds ∧ w.nrCpuIds ≤ flowMaxCpus := by
  by_contra hout
  have hb : w.nrCpuIds ≤ 1 ∨ w.nrCpuIds > flowMaxCpus := by omega
  unfold scanLoop at h
  rw [if_pos hb] at h
  exact Option.some_ne_none _ h.symm

/-- What a peer has to pass. -/
theorem scanGate_iff {c : ℕ} : scanGate w t c = true
    ↔ c ≠ t.thisCpu ∧ flowCpuOk w t.ts c = true ∧ flowCpuMeets w c t.deadline t.now = true := by
  unfold scanGate
  split_ifs with hself hok hmeets
  · exact iff_of_false not_false fun h => h.1 hself
  · exact iff_of_false not_false fun h => by simp [h.2.1] at hok
  · exact iff_of_false not_false fun h => by simp [h.2.2] at hmeets
  · exact iff_of_true rfl ⟨hself, by simpa using hok, by simpa using hmeets⟩

theorem scanVisit_visited (gate : ℕ → Bool) (take : Option α → ℕ → α) (s : ScanState α)
    (peer : ℕ) : (scanVisit gate take s peer).visited = s.visited ++ [peer] := by
  unfold scanVisit
  split_ifs <;> rfl

theorem foldl_scanVisit_visited (gate : ℕ → Bool) (take : Option α → ℕ → α) :
    ∀ (l : List ℕ) (s : ScanState α),
      (l.foldl (scanVisit gate take) s).visited = s.visited ++ l
  | [], s => by simp
  | peer :: l, s => by
    rw [List.foldl_cons, foldl_scanVisit_visited gate take l, scanVisit_visited,
      List.append_assoc]
    rfl

theorem ssfScan_eq (hn : 2 ≤ w.nrCpuIds) (hle : w.nrCpuIds ≤ flowMaxCpus) :
    ssfScan w cap t
      = (ssfWindow w.nrCpuIds t.cursor.toNat).foldl (ssfVisit w cap t) ⟨none, []⟩ :=
  scanLoop_eq hn hle (by decide) (fun h0 hp => scanStart_toNat h0 hp t.cursor) _

theorem bsfScan_eq (hn : 2 ≤ w.nrCpuIds) (hle : w.nrCpuIds ≤ flowMaxCpus) :
    bsfScan w t = (bsfWindow w.nrCpuIds t.cursor.toNat).foldl (bsfVisit w t) ⟨none, []⟩ :=
  scanLoop_eq hn hle (by decide) (fun h0 hp => bsfStart_toNat h0 hp t.cursor) _

theorem ssfScan_visited (hn : 2 ≤ w.nrCpuIds) (hle : w.nrCpuIds ≤ flowMaxCpus) :
    (ssfScan w cap t).visited = ssfWindow w.nrCpuIds t.cursor.toNat := by
  rw [ssfScan_eq hn hle]
  exact foldl_scanVisit_visited _ _ _ _

theorem bsfScan_visited (hn : 2 ≤ w.nrCpuIds) (hle : w.nrCpuIds ≤ flowMaxCpus) :
    (bsfScan w t).visited = bsfWindow w.nrCpuIds t.cursor.toNat := by
  rw [bsfScan_eq hn hle]
  exact foldl_scanVisit_visited _ _ _ _

end Scans

/-- Past eight CPUs the second window goes on where the first ends. -/
theorem windows_append {n : ℕ} (h : flowDispatchMaxVisit ≤ n) (cursor : ℕ) :
    ssfWindow n cursor ++ bsfWindow n cursor = Ring.window n (cursor + 1) 12 := by
  unfold ssfWindow bsfWindow
  simp only [flowDispatchMaxVisit] at h
  rw [flowDispatchMaxVisit, flowBsfMaxPeers, min_eq_left h, min_eq_left (by omega)]
  exact Ring.window_append n (cursor + 1) 8 4

theorem windows_nodup {n : ℕ} (h : 12 ≤ n) (cursor : ℕ) :
    (ssfWindow n cursor ++ bsfWindow n cursor).Nodup := by
  rw [windows_append (by simp only [flowDispatchMaxVisit]; omega)]
  exact Ring.nodup_window h

theorem windows_cover {n : ℕ} (h : n < 12) (cursor : ℕ) {c : ℕ} (hc : c < n) :
    c ∈ ssfWindow n cursor ++ bsfWindow n cursor := by
  rcases Nat.lt_or_ge n 8 with hlt | hge
  · refine List.mem_append_left _ (Ring.mem_window_of_le ?_ hc)
    simp only [flowDispatchMaxVisit]
    omega
  · rw [windows_append hge]
    exact Ring.mem_window_of_le (by omega) hc

section Ids
variable {n : ℕ} (hn : 2 ≤ n) (hle : n ≤ flowMaxCpus)
include hn hle

/-- The start of a steal and its peers on words, as on the numbers the steal is modelled with. -/
theorem stealStart_words (cursor : UInt32) :
    (scanStart (isPow2Word (UInt32.ofNat n).toUInt64) cursor (UInt32.ofNat n)).toNat
      = flowWrapIdx (cursor.toNat + 1) n := by
  rw [scanStart_toNat (hostWord_ne_zero hn hle) flowIsPow2_of_word, toNat_hostWord hle,
    flowWrapIdx_eq _ (by omega)]

theorem stealPeer_words (start off : UInt32) :
    (scanPeer (isPow2Word (UInt32.ofNat n).toUInt64) start (UInt32.ofNat n) off).toNat
      = flowWrapIdx (start.toNat + off.toNat) n := by
  rw [scanPeer_toNat (hostWord_ne_zero hn hle) flowIsPow2_of_word, toNat_hostWord hle,
    flowWrapIdx_eq _ (by omega)]

theorem stealNext_words (cursor : UInt32) :
    stealNext cursor (UInt32.ofNat n) = UInt32.ofNat (flowWrapIdx (cursor.toNat + 2) n) := by
  have hlt : flowWrapIdx (cursor.toNat + 2) n < n := by
    rw [flowWrapIdx_eq _ (by omega)]
    exact Nat.mod_lt _ (by omega)
  rw [← UInt32.toNat_inj, stealNext, wrapIdxWord_eq, toNat_cursor_add cursor (by decide),
    toNat_hostWord hle, toNat_hostWord (by omega)]
  rfl

end Ids

/-- The first element with work that is near, or else the first with work, is the first near one, or
else the first far one. -/
theorem firstNear_or_first {α : Type} (work near : α → Bool) (l : List α) :
    ((l.filter work).find? near).or (l.filter work).head?
      = (l.find? fun c => work c && near c == true).or
        (l.find? fun c => work c && near c == false) := by
  have hfirst : l.find? (fun c => decide (work c = true ∧ near c = true))
      = l.find? fun c => work c && near c == true :=
    List.find?_congr fun c _ => by cases work c <;> cases near c <;> rfl
  rw [List.find?_filter, List.head?_filter, hfirst]
  rcases hnear : l.find? fun c => work c && near c == true with _ | c
  · refine (Option.none_or.trans ?_).trans Option.none_or.symm
    refine List.find?_congr fun c hc => ?_
    have hfar := List.find?_eq_none.mp hnear c hc
    cases hwork : work c
    · rfl
    · rw [hwork, Bool.true_and, beq_true, Bool.not_eq_true] at hfar
      rw [hfar]
      rfl
  · rfl

/-- A steal comes to the peers of the window behind its cursor in order, and moves from the first
with work on its node, or else from the first with work. -/
theorem flowStealOne_window {k : Kernel} {cpu cursor : ℕ} {s : Pass} (hn : 2 ≤ s.world.nrCpuIds)
    (hle : s.world.nrCpuIds ≤ flowMaxCpus) (hlive : flowCpuLive s.world cpu = true)
    (hvisits : s.visits < flowDispatchMaxVisit) :
    let peers := Ring.window s.world.nrCpuIds (cursor + 1) (stealWindow s.world cpu s.visits)
    let busy := peers.filter fun c => decide (c ≠ cpu ∧ s.world.dsq (flowLocalDsq c) ≠ [])
    flowStealOne k cpu cursor s
      = match (busy.find? fun c => flowCpuNode s.world c = flowCpuNode s.world cpu).or busy.head? with
        | none => (s, 0)
        | some peer =>
          flowMoveOneHint k (flowLocalDsq peer) cpu (nrQueued s.world (flowLocalDsq peer)) s := by
  intro peers busy
  have hpick : (busy.find? fun c => flowCpuNode s.world c = flowCpuNode s.world cpu).or busy.head?
      = (peerPick s.world cpu cursor (stealWindow s.world cpu s.visits)).map
        (windowPeer s.world cursor) := by
    have hfirst (near : Bool) (offs : List ℕ) :
        (peerFirst s.world cpu cursor near offs).map (windowPeer s.world cursor)
          = (offs.map (windowPeer s.world cursor)).find? fun c =>
            decide (c ≠ cpu ∧ s.world.dsq (flowLocalDsq c) ≠ [])
              && decide (flowCpuNode s.world c = flowCpuNode s.world cpu) == near := by
      rw [List.find?_map]
      rfl
    rw [peerPick, Option.map_or, hfirst, hfirst]
    exact firstNear_or_first _ _ peers
  rw [flowStealOne_settles hn hle hlive hvisits, hpick]
  rcases peerPick s.world cpu cursor (stealWindow s.world cpu s.visits) with _ | off
  · rfl
  · rfl

/-- The cursor a steal stores. -/
theorem flowCursorAdvance_cursor {w : World} {cpu : ℕ} (hn : 2 ≤ w.nrCpuIds)
    (hle : w.nrCpuIds ≤ flowMaxCpus) (hcpu : cpu < flowMaxCpus) (cursor : UInt32) {moved : ℕ}
    (hmoved : moved ≠ 0) :
    ((flowCursorAdvance w cpu cursor.toNat moved).cpuState cpu).cursor
      = stealNext cursor (UInt32.ofNat w.nrCpuIds) := by
  have hlive : ¬cpu ≥ flowMaxCpus := by omega
  have hgo : moved ≠ 0 ∧ w.nrCpuIds > 1 ∧ w.nrCpuIds ≤ flowMaxCpus := ⟨hmoved, hn, hle⟩
  unfold flowCursorAdvance flowCpu
  rw [Int.toNat_natCast, if_neg hlive, stealNext_words hn hle]
  simp only [if_pos hgo, World.setCpu, Function.update_self]

section Best
variable {w : World} {cap : ℕ → UInt32} {ts : TaskStruct} {deadline now : UInt64} {thisCpu : ℕ}
  {prevCpu : ℤ}

/-- The pick of `flow_select_best` over the tail it hoists. -/
theorem flowSelectBest_eq (w : World) (cap : ℕ → UInt32) (ts : TaskStruct)
    (deadline now : UInt64) (thisCpu : ℕ) (prevCpu : ℤ) :
    let tail := selectTail w ts deadline now thisCpu prevCpu
    let pick := (flowSsfPick w cap tail).or (flowBsfPick w tail)
    flowSelectBest w cap ts deadline now thisCpu prevCpu
      = (pick, if pick.isSome then selectStore w thisCpu else []) := by
  intro tail pick
  unfold flowSelectBest
  simp only
  by_cases hb : w.nrCpuIds ≤ 1 ∨ w.nrCpuIds > flowMaxCpus
  · -- the scans test the same bounds
    have hssf : flowSsfPick w cap tail = none := by
      unfold flowSsfPick ssfScan scanLoop
      rw [if_pos hb]
      rfl
    have hbsf : flowBsfPick w tail = none := by
      unfold flowBsfPick bsfScan scanLoop
      rw [if_pos hb]
      rfl
    rw [if_pos hb]
    simp [pick, hssf, hbsf]
  · rw [if_neg hb]
    rcases hssf : flowSsfPick w cap (selectTail w ts deadline now thisCpu prevCpu) with _ | best
    · rcases hbsf : flowBsfPick w (selectTail w ts deadline now thisCpu prevCpu) with _ | bsf
      · simp [pick, tail, hssf, hbsf]
      · simp [pick, tail, hssf, hbsf]
    · simp [pick, tail, hssf]

theorem flowSelectBest_fst : (flowSelectBest w cap ts deadline now thisCpu prevCpu).1
    = (flowSsfPick w cap (selectTail w ts deadline now thisCpu prevCpu)).or
      (flowBsfPick w (selectTail w ts deadline now thisCpu prevCpu)) := by
  rw [flowSelectBest_eq]

/-- The one write of `flow_select_best`. -/
theorem flowSelectBest_store {e : SelectEffect}
    (he : e ∈ (flowSelectBest w cap ts deadline now thisCpu prevCpu).2) :
    e = .storeCursor thisCpu (selectNext (isPow2Word (UInt32.ofNat w.nrCpuIds).toUInt64)
      (selectCursor w thisCpu) (UInt32.ofNat w.nrCpuIds)) := by
  rw [flowSelectBest_eq] at he
  unfold selectStore at he
  simp only at he
  split_ifs at he
  · exact List.mem_singleton.mp he
  · exact absurd he List.not_mem_nil
  · exact absurd he List.not_mem_nil

/-- Scans that find no CPU write nothing. -/
theorem flowSelectBest_of_none
    (h : (flowSelectBest w cap ts deadline now thisCpu prevCpu).1 = none) :
    flowSelectBest w cap ts deadline now thisCpu prevCpu = (none, []) := by
  rw [flowSelectBest_fst] at h
  rw [flowSelectBest_eq, h]
  rfl

end Best

section IndexLaw

/-- On a host of two to 1024 CPUs both scans come to the CPUs of their windows in order, twelve
apart or all of them; the steal comes to its peers so too, and moves from the first with work on its
node, or else from the first with work; and the two stored cursors wrap by the same law. -/
theorem scans_visit_windows {w : World} (cap : ℕ → UInt32) (t : FlowScanTail)
    (hn : 2 ≤ w.nrCpuIds) (hle : w.nrCpuIds ≤ flowMaxCpus) :
    (ssfScan w cap t).visited = (List.range (min 8 w.nrCpuIds)).map
      (fun i => (t.cursor.toNat + 1 + i) % w.nrCpuIds)
    ∧ (bsfScan w t).visited = (List.range (min 4 w.nrCpuIds)).map
      (fun i => (t.cursor.toNat + 9 + i) % w.nrCpuIds)
    ∧ (12 ≤ w.nrCpuIds → ((ssfScan w cap t).visited ++ (bsfScan w t).visited).Nodup)
    ∧ (w.nrCpuIds < 12 →
      ∀ c < w.nrCpuIds, c ∈ (ssfScan w cap t).visited ++ (bsfScan w t).visited)
    ∧ (∀ cursor off : UInt32,
      let n := UInt32.ofNat w.nrCpuIds
      let pow2 := isPow2Word n.toUInt64
      let start := scanStart pow2 cursor n
      start.toNat = (cursor.toNat + 1) % w.nrCpuIds
      ∧ start.toNat = flowWrapIdx (cursor.toNat + 1) w.nrCpuIds
      ∧ (scanPeer pow2 start n off).toNat = (cursor.toNat + 1 + off.toNat) % w.nrCpuIds
      ∧ (scanPeer pow2 start n off).toNat
        = flowWrapIdx (flowWrapIdx (cursor.toNat + 1) w.nrCpuIds + off.toNat) w.nrCpuIds)
    ∧ (∀ (k : Kernel) (cpu : ℕ) (cursor : UInt32) (s : Pass), s.world = w →
      flowCpuLive w cpu = true → s.visits < flowDispatchMaxVisit →
      let peers := (List.range (stealWindow w cpu s.visits)).map
        fun i => (cursor.toNat + 1 + i) % w.nrCpuIds
      let busy := peers.filter fun c => decide (c ≠ cpu ∧ w.dsq (flowLocalDsq c) ≠ [])
      flowStealOne k cpu cursor.toNat s
        = match (busy.find? fun c => flowCpuNode w c = flowCpuNode w cpu).or busy.head? with
          | none => (s, 0)
          | some peer =>
            flowMoveOneHint k (flowLocalDsq peer) cpu (nrQueued w (flowLocalDsq peer)) s)
    ∧ (∀ (cpu : ℕ) (cursor : UInt32) (moved : ℕ), cpu < flowMaxCpus → moved ≠ 0 →
      ((flowCursorAdvance w cpu cursor.toNat moved).cpuState cpu).cursor.toNat
        = (cursor.toNat + 2) % w.nrCpuIds)
    ∧ ∀ (ts : TaskStruct) (deadline now : UInt64) (thisCpu : ℕ) (prevCpu : ℤ) (cpu : ℕ)
        (next : UInt32),
      .storeCursor cpu next ∈ (flowSelectBest w cap ts deadline now thisCpu prevCpu).2 →
        cpu = thisCpu ∧ next.toNat = ((selectCursor w thisCpu).toNat + 2) % w.nrCpuIds := by
  have hn0 := hostWord_ne_zero hn hle
  have hw := toNat_hostWord hle
  rw [ssfScan_visited hn hle, bsfScan_visited hn hle]
  refine ⟨rfl, rfl, fun h => windows_nodup h _, fun h c hc => windows_cover h _ hc, ?_, ?_, ?_, ?_⟩
  · intro cursor off n pow2 start
    have hs := stealStart_words hn hle cursor
    have hpeer := stealPeer_words hn hle start off
    rw [hs] at hpeer
    refine ⟨?_, hs, ?_, hpeer⟩
    · rw [hs, flowWrapIdx_eq _ (by omega)]
    · rw [hpeer, flowWrapIdx_eq _ (by omega), flowWrapIdx_eq _ (by omega), Nat.mod_add_mod]
  · rintro k cpu cursor s rfl hlive hvisits
    exact flowStealOne_window hn hle hlive hvisits
  · intro cpu cursor moved hcpu hmoved
    rw [flowCursorAdvance_cursor hn hle hcpu cursor hmoved, stealNext_toNat hn0, hw]
  · intro ts deadline now thisCpu prevCpu cpu next he
    obtain ⟨rfl, rfl⟩ := SelectEffect.storeCursor.inj (flowSelectBest_store he)
    rw [selectNext_toNat hn0 flowIsPow2_of_word, hw]
    exact ⟨rfl, rfl⟩

/-- The scan of a task that may run anywhere, from a stale cursor at the largest word. -/
def FlowScanTail.stale : FlowScanTail := ⟨TaskStruct.plain 0, 0, 0, 0, 0, 0xffffffff⟩

/-- A host of twelve CPUs, where tasks wait on CPU 3, before the window of the stale cursor, and on
CPU 7 in it. -/
def World.twelve : World :=
  ((World.boot 12 1 fun _ => 0).setDsq (flowLocalDsq 3) [⟨2, 5⟩]).setDsq (flowLocalDsq 7) [⟨1, 5⟩]

theorem scans_visit_windows_twelve :
    (ssfScan World.twelve (fun _ => 0) .stale).visited = [4, 5, 6, 7, 8, 9, 10, 11]
    ∧ (bsfScan World.twelve .stale).visited = [0, 1, 2, 3]
    ∧ flowStealOne (Kernel.plain 1000) 0 4294967295 (Pass.start World.twelve 8)
      = flowMoveOneHint (Kernel.plain 1000) (flowLocalDsq 7) 0 1 (Pass.start World.twelve 8)
    ∧ ((flowCursorAdvance World.twelve 0 4294967295 1).cpuState 0).cursor = 5 := by
  obtain ⟨hssf, hbsf, -, -, -, hsteal, hcursor, -⟩ :=
    scans_visit_windows (w := World.twelve) (fun _ => 0) .stale (by decide) (by decide)
  exact ⟨hssf, hbsf, hsteal (Kernel.plain 1000) 0 0xffffffff (Pass.start World.twelve 8) rfl rfl
    (by decide), UInt32.toNat_inj.mp (hcursor 0 0xffffffff 1 (by decide) (by decide))⟩

end IndexLaw

end ScxFlow
