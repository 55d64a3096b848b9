import ScxFlow.Lib.Share
import ScxFlow.Proofs.StrictKey
import ScxFlow.Proofs.TaskRanges

/-!
# Proportional share

A stop charges its segment to the ledger at the effective share of the task.  Whatever else a run
does in between, and however a service is cut into segments, the charges at one share move the
ledger in proportion to the service over the share, up to 1 ns a charge.
-/

namespace ScxFlow

variable {w : World} {p : TaskRef} {t : FlowTaskCtx} {share : ℕ}

section Charges

/-- A charge: the share and the delta, and the ledger before and after. -/
structure Charge where
  share : UInt32
  delta : UInt64
  before : UInt64
  after : UInt64

/-- The charge a call makes to `p`: by a stop that takes a start with a nonzero segment. -/
def shareCharge (p : TaskRef) (w : World) (c : Call) : Option Charge :=
  match c.op with
  | .stopping q _ =>
    if q = p then do
      let t ← stopTakes w c.view p
      let t' ← (w.step c).taskCtx p
      let delta := flowStopDelta c.view.now t.runAt
      if delta = 0 then none
      else some ⟨flowTaskEffectiveWeight t.weight t.hintW, delta, t.vruntime, t'.vruntime⟩
    else none
  | _ => none

/-- The charges to `p` along a run. -/
def charges (p : TaskRef) : World → List Call → List Charge
  | _, [] => []
  | w, c :: cs => (shareCharge p w c).toList ++ charges p (w.step c) cs

/-- The services of a list of charges. -/
def deltas (chs : List Charge) : List ℕ := chs.map fun ch => ch.delta.toNat

/-- The advance of the ledger over a list of charges. -/
def advanced (chs : List Charge) : ℕ := (chs.map fun ch => ch.after.toNat - ch.before.toNat).sum

/-- The charges are all at one share, and none takes the ledger to 2^63. -/
structure AtShare (share : ℕ) (chs : List Charge) : Prop where
  share : ∀ ch ∈ chs, ch.share.toNat = share
  below : ∀ ch ∈ chs, ch.after.toNat < 2 ^ 63

/-- The ledger moves by `v` for the services `ds` in proportion to them over the share, up to one a
charge. -/
structure Proportional (share : ℕ) (ds : List ℕ) (v : ℕ) : Prop where
  error : |(v * share : ℤ) - 128 * ds.sum| ≤ ds.length * (share - 1)
  strict : ds ≠ [] → |(v * share : ℤ) - 128 * ds.sum| < ds.length * share
  near : ds ≠ [] → |(v : ℚ) - 128 * ds.sum / share| < ds.length

theorem proportional_total {ds : List ℕ} (hs : 0 < share) (hds : ∀ d ∈ ds, 0 < d) :
    Proportional share ds (Share.total 128 share ds) := by
  have hbase : 0 < 128 := by decide
  have herror := Share.total_error hbase hs hds
  refine ⟨by exact_mod_cast herror, fun hne => ?_, fun hne => ?_⟩
  · have hlen : (0 : ℤ) < ds.length := by exact_mod_cast List.length_pos_of_ne_nil hne
    have hlt : (ds.length * (share - 1) : ℤ) < ds.length * share :=
      mul_lt_mul_of_pos_left (by omega) hlen
    exact lt_of_le_of_lt (by exact_mod_cast herror) hlt
  · exact_mod_cast Share.total_near hbase hs hds hne

end Charges

section OneCharge

/-- What a stop does when it charges. -/
structure Charge.Ok (ch : Charge) : Prop where
  share : ShareIn ch.share
  served : 0 < ch.delta.toNat ∧ ch.delta.toNat ≤ 5000000000
  ledger : ch.after = flowLedgerAdvance ch.before ch.delta ch.share

theorem flowStopDelta_le (now start : UInt64) : (flowStopDelta now start).toNat ≤ 5000000000 := by
  unfold flowStopDelta flowGapIsResume
  simp only
  split
  · exact Nat.zero_le _
  · rename_i h
    rw [decide_eq_true_eq, gt_iff_lt, UInt64.lt_iff_toNat_lt, not_lt] at h
    exact h

theorem shareCharge_ok {c : Call} {ch : Charge} (h : shareCharge p w c = some ch) : ch.Ok := by
  obtain ⟨k, op⟩ := c
  cases op with
  | stopping q runnable =>
    unfold shareCharge at h
    simp only at h
    split_ifs at h with hq
    subst hq
    obtain ⟨t, htakes, h⟩ := Option.bind_eq_some_iff.mp h
    obtain ⟨t', hstep, h⟩ := Option.bind_eq_some_iff.mp h
    split_ifs at h with hdelta
    obtain rfl := Option.some.inj h
    rcases flowStopping_cases w k q runnable with ⟨-, hnone, -⟩ | ⟨-, hnone, -⟩ |
      ⟨t₀, t₁, es, -, hsome, -, -, heq, hctx, -⟩
    · exact absurd (hnone.symm.trans htakes) (Option.some_ne_none _).symm
    · exact absurd (hnone.symm.trans htakes) (Option.some_ne_none _).symm
    · obtain rfl := Option.some.inj (hsome.symm.trans htakes)
      have hafter : (w.step ⟨k, .stopping q runnable⟩).taskCtx q = some t₁ := by
        show (w.commit k q (flowStopping w k q runnable)).taskCtx q = some t₁
        rw [commit_taskCtx, Function.update_self, heq]
      obtain rfl := Option.some.inj (hafter.symm.trans hstep)
      refine ⟨flowTaskEffectiveWeight_in _ _, ⟨toNat_pos_iff.mpr hdelta, flowStopDelta_le _ _⟩, ?_⟩
      show t₁.vruntime = _
      rw [hctx.vruntime, if_pos hdelta, ← flowTaskEffectiveWeight_default]
      rfl
  | _ => exact absurd h.symm (Option.some_ne_none _)

theorem charges_ok : ∀ {cs : List Call} {w : World}, ∀ ch ∈ charges p w cs, ch.Ok
  | [], _, ch, h => absurd h List.not_mem_nil
  | c :: cs, w, ch, h => by
    rcases List.mem_append.mp h with h | h
    · exact shareCharge_ok (Option.mem_toList.mp h)
    · exact charges_ok ch h

/-- A ledger below 2^63 moved by exactly the advance of the charge. -/
theorem flowLedgerAdvance_toNat (before : UInt64) {delta : UInt64} {weight : UInt32}
    (hw : ShareIn weight) (hpos : 0 < delta.toNat) (hle : delta.toNat ≤ 5000000000)
    (hlt : (flowLedgerAdvance before delta weight).toNat < 2 ^ 63) :
    (flowLedgerAdvance before delta weight).toNat
      = before.toNat + Share.advance 128 weight.toNat delta.toNat := by
  have hscaled := flowScaledDelta_toNat (toNat_pos_iff.mp hpos) (by omega) hw
  unfold flowLedgerAdvance at hlt ⊢
  rw [flowSatAdd_toNat, hscaled] at hlt ⊢
  unfold Share.advance
  omega

theorem Charge.Ok.after_toNat {ch : Charge} (h : ch.Ok) (hlt : ch.after.toNat < 2 ^ 63) :
    ch.after.toNat = ch.before.toNat + Share.advance 128 ch.share.toNat ch.delta.toNat := by
  rw [h.ledger] at hlt ⊢
  exact flowLedgerAdvance_toNat ch.before h.share h.served.1 h.served.2 hlt

end OneCharge

section ChargeLists

theorem advanced_eq {chs : List Charge} (hok : ∀ ch ∈ chs, ch.Ok) (h : AtShare share chs) :
    advanced chs = Share.total 128 share (deltas chs) := by
  unfold advanced Share.total deltas
  rw [List.map_map]
  refine congrArg List.sum (List.map_congr_left fun ch hmem => ?_)
  have hafter := (hok ch hmem).after_toNat (h.below ch hmem)
  rw [h.share ch hmem] at hafter
  rw [hafter, Nat.add_sub_cancel_left]
  rfl

theorem deltas_pos {chs : List Charge} (hok : ∀ ch ∈ chs, ch.Ok) : ∀ d ∈ deltas chs, 0 < d := by
  intro d hd
  obtain ⟨ch, hmem, rfl⟩ := List.mem_map.mp hd
  exact (hok ch hmem).served.1

/-- A share some charge is at is positive. -/
theorem AtShare.pos {chs : List Charge} (hok : ∀ ch ∈ chs, ch.Ok) (h : AtShare share chs)
    (hne : chs ≠ []) : 0 < share := by
  obtain ⟨ch, rest, rfl⟩ := List.exists_cons_of_ne_nil hne
  have hone : 1 ≤ ch.share.toNat := (hok ch List.mem_cons_self).share.1
  rwa [h.share ch List.mem_cons_self] at hone

theorem proportional_of_charges {chs : List Charge} (hok : ∀ ch ∈ chs, ch.Ok)
    (h : AtShare share chs) : Proportional share (deltas chs) (advanced chs) := by
  rcases eq_or_ne chs [] with rfl | hne
  · exact ⟨by simp [deltas, advanced], fun hn => absurd rfl hn, fun hn => absurd rfl hn⟩
  · rw [advanced_eq hok h]
    exact proportional_total (h.pos hok hne) (deltas_pos hok)

/-- Charges for the same service move two ledgers in inverse ratio of their shares. -/
theorem inverse_of_charges {chs chs' : List Charge} {share' : ℕ} (hok : ∀ ch ∈ chs, ch.Ok)
    (hok' : ∀ ch ∈ chs', ch.Ok) (h : AtShare share chs) (h' : AtShare share' chs')
    (hsum : (deltas chs).sum = (deltas chs').sum) (hne : chs ≠ []) :
    |(advanced chs * share : ℤ) - advanced chs' * share'|
      < chs.length * share + chs'.length * share' := by
  have hpos := h.pos hok hne
  have hne' : chs' ≠ [] := by
    -- the service of `chs` is positive, so `chs'` has a charge
    rintro rfl
    obtain ⟨ch, rest, rfl⟩ := List.exists_cons_of_ne_nil hne
    have hfirst := (hok ch List.mem_cons_self).served.1
    have hzero : ch.delta.toNat + (deltas rest).sum = 0 := hsum
    omega
  have hpos' := h'.pos hok' hne'
  have hbase : 0 < 128 := by decide
  have herror := Share.total_inverse hbase hpos hpos' (deltas_pos hok) (deltas_pos hok') hsum
  have hlen : (deltas chs).length = chs.length := List.length_map _
  have hlen' : (deltas chs').length = chs'.length := List.length_map _
  have hn : 0 < chs.length := List.length_pos_of_ne_nil hne
  rw [advanced_eq hok h, advanced_eq hok' h']
  rw [hlen, hlen'] at herror
  calc _ ≤ (chs.length * (share - 1) + chs'.length * (share' - 1) : ℤ) := herror
    _ = chs.length * share + chs'.length * share' - (chs.length + chs'.length : ℕ) := by
      push_cast
      ring
    _ < chs.length * share + chs'.length * share' := by omega

theorem flowStopCharge_vruntime (t : FlowTaskCtx) (delta : UInt64) :
    (flowStopCharge t delta).vruntime
      = flowLedgerAdvance t.vruntime delta (flowTaskEffectiveWeight t.weight t.hintW) := by
  rw [← flowTaskEffectiveWeight_default]
  rfl

theorem foldl_flowStopCharge_toNat : ∀ {ds : List UInt64} {t : FlowTaskCtx},
    (∀ d ∈ ds, 1 ≤ d.toNat ∧ d.toNat ≤ 5000000000) →
    (ds.foldl flowStopCharge t).vruntime.toNat < 2 ^ 63 →
    (ds.foldl flowStopCharge t).vruntime.toNat = t.vruntime.toNat
      + Share.total 128 (flowTaskEffectiveWeight t.weight t.hintW).toNat (ds.map (·.toNat))
  | [], t, _, _ => rfl
  | d :: ds, t, hds, hlt => by
    obtain ⟨hd, hrest⟩ := List.forall_mem_cons.mp hds
    have ih := foldl_flowStopCharge_toNat (t := flowStopCharge t d) hrest hlt
    have hshare : flowTaskEffectiveWeight (flowStopCharge t d).weight (flowStopCharge t d).hintW
        = flowTaskEffectiveWeight t.weight t.hintW := rfl
    rw [hshare] at ih
    have hone := flowLedgerAdvance_toNat t.vruntime (flowTaskEffectiveWeight_in t.weight t.hintW)
      hd.1 hd.2 ?_
    · rw [flowStopCharge_vruntime, hone] at ih
      rw [List.map_cons, Share.total_cons, List.foldl_cons, ih]
      omega
    · rw [← flowStopCharge_vruntime]
      rw [List.foldl_cons] at hlt
      omega

end ChargeLists

section Share

/-- Over any run, the charges to a task at one share move its ledger in proportion to the service
over the share, by 1 ns a charge at least; two tasks with the same service, cut in any way, move in
inverse ratio of their shares; and so does any sequence of charges with nothing in between. -/
theorem run_proportional_share :
    (∀ (w : World) (cs : List Call) (p : TaskRef) (share : ℕ), AtShare share (charges p w cs) →
      (∀ ch ∈ charges p w cs, (1 ≤ ch.delta.toNat ∧ ch.delta.toNat ≤ 5000000000)
        ∧ ch.before.toNat + 1 ≤ ch.after.toNat)
      ∧ Proportional share (deltas (charges p w cs)) (advanced (charges p w cs)))
    ∧ (∀ (w w' : World) (cs cs' : List Call) (p p' : TaskRef) (share share' : ℕ),
      AtShare share (charges p w cs) → AtShare share' (charges p' w' cs') →
      (deltas (charges p w cs)).sum = (deltas (charges p' w' cs')).sum → charges p w cs ≠ [] →
      |(advanced (charges p w cs) * share : ℤ) - advanced (charges p' w' cs') * share'|
        < (charges p w cs).length * share + (charges p' w' cs').length * share')
    ∧ ∀ (t : FlowTaskCtx) (ds : List UInt64), (∀ d ∈ ds, 1 ≤ d.toNat ∧ d.toNat ≤ 5000000000) →
      (ds.foldl flowStopCharge t).vruntime.toNat < 2 ^ 63 →
      t.vruntime.toNat + ds.length ≤ (ds.foldl flowStopCharge t).vruntime.toNat
      ∧ Proportional (flowTaskEffectiveWeight t.weight t.hintW).toNat (ds.map (·.toNat))
        ((ds.foldl flowStopCharge t).vruntime.toNat - t.vruntime.toNat) := by
  refine ⟨fun w cs p share h => ⟨fun ch hmem => ?_, proportional_of_charges charges_ok h⟩,
    fun w w' cs cs' p p' share share' h h' hsum hne =>
      inverse_of_charges charges_ok charges_ok h h' hsum hne, fun t ds hds hlt => ?_⟩
  · have hok := charges_ok ch hmem
    have hone := Share.one_le_advance 128 ch.share.toNat ch.delta.toNat
    have hafter := hok.after_toNat (h.below ch hmem)
    exact ⟨hok.served, by omega⟩
  · have hfinal := foldl_flowStopCharge_toNat hds hlt
    have hlen := Share.length_le_total 128 (flowTaskEffectiveWeight t.weight t.hintW).toNat
      (ds.map (·.toNat))
    rw [List.length_map] at hlen
    refine ⟨by omega, ?_⟩
    rw [hfinal, Nat.add_sub_cancel_left]
    refine proportional_total (flowTaskEffectiveWeight_in _ _).1 fun d hd => ?_
    obtain ⟨delta, hmem, rfl⟩ := List.mem_map.mp hd
    exact (hds delta hmem).1

/-- One segment of a task at the neutral share. -/
def wholeCalls : List Call :=
  [⟨Kernel.plain 1000, .enable 0⟩, ⟨Kernel.plain 1000000, .running 0⟩,
    ⟨Kernel.plain 1850000, .stopping 0 true⟩]

/-- The same service in two segments of a task at twice the share. -/
def splitCalls : List Call :=
  [⟨Kernel.plain 1000, .enable 1⟩, ⟨Kernel.plain 1000, .setWeight 1 256⟩,
    ⟨Kernel.plain 2000000, .running 1⟩, ⟨Kernel.plain 2500001, .stopping 1 true⟩,
    ⟨Kernel.plain 3000000, .running 1⟩, ⟨Kernel.plain 3349999, .stopping 1 false⟩]

theorem wholeCalls_charges :
    charges 0 (World.boot 1 1 fun _ => 0) wholeCalls = [⟨128, 850000, 0, 850000⟩] := rfl

theorem splitCalls_charges : charges 1 (World.boot 1 1 fun _ => 0) splitCalls
    = [⟨256, 500001, 0, 250000⟩, ⟨256, 349999, 250000, 424999⟩] := rfl

/-- Half the advance for the same service at twice the share, with 1 ns lost to the cut. -/
theorem run_proportional_share_split :
    Proportional 256 (deltas (charges 1 (World.boot 1 1 fun _ => 0) splitCalls)) 424999
      ∧ |(advanced (charges 0 (World.boot 1 1 fun _ => 0) wholeCalls) * (128 : ℕ) : ℤ)
          - advanced (charges 1 (World.boot 1 1 fun _ => 0) splitCalls) * (256 : ℕ)|
        < (charges 0 (World.boot 1 1 fun _ => 0) wholeCalls).length * (128 : ℕ)
          + (charges 1 (World.boot 1 1 fun _ => 0) splitCalls).length * (256 : ℕ)
      ∧ FlowTaskCtx.fresh.vruntime.toNat + [500001, 349999].length
        ≤ ([500001, 349999].foldl flowStopCharge FlowTaskCtx.fresh).vruntime.toNat := by
  have hwhole : AtShare 128 (charges 0 (World.boot 1 1 fun _ => 0) wholeCalls) := by
    rw [wholeCalls_charges]
    exact ⟨by simp, by simp⟩
  have hsplit : AtShare 256 (charges 1 (World.boot 1 1 fun _ => 0) splitCalls) := by
    rw [splitCalls_charges]
    exact ⟨by simp, by simp⟩
  have hadvanced : advanced (charges 1 (World.boot 1 1 fun _ => 0) splitCalls) = 424999 := by
    rw [splitCalls_charges]
    rfl
  refine ⟨?_, ?_, ?_⟩
  · rw [← hadvanced]
    exact (run_proportional_share.1 _ _ _ _ hsplit).2
  · refine run_proportional_share.2.1 _ _ _ _ _ _ _ _ hwhole hsplit ?_ ?_
    · rw [wholeCalls_charges, splitCalls_charges]
      rfl
    · rw [wholeCalls_charges]
      exact List.cons_ne_nil _ _
  · have hledger :
        ([500001, 349999].foldl flowStopCharge FlowTaskCtx.fresh).vruntime = 850000 := rfl
    refine (run_proportional_share.2.2 .fresh [500001, 349999] (by simp) ?_).1
    rw [hledger]
    show 850000 < 2 ^ 63
    norm_num

end Share

end ScxFlow
