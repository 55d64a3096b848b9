import ScxFlow.Proofs.Backlog
import ScxFlow.Proofs.StrictKey
import ScxFlow.Proofs.TierWait
import ScxFlow.Proofs.Virtual

/-!
# When nothing overtakes a waiting task any more

A newcomer's key is not before the clock, and not before the minimum of the CPU it aims at less the
lag bound, which its ledger is clamped to (`tierKey_bounds`).  Both only move forward.  So once they
are past the key of a waiting task nothing overtakes it, and it waits for no more passes that reach
it than its place (`run_unpassed`).
-/

namespace ScxFlow

variable {w : World} {k : Kernel} {p : TaskRef} {d : ℕ} {enqFlags : UInt64}

section Newcomer

theorem flowFallbackDeadline_bounds {now : UInt64} (hintUs : UInt32) (hnow : now.toNat < 2 ^ 62) :
    now.toNat ≤ (flowFallbackDeadline now hintUs).toNat
      ∧ (flowFallbackDeadline now hintUs).toNat < 2 ^ 63 := by
  have hhint := hintUs.toNat_lt
  unfold flowFallbackDeadline flowDeadlineAt
  rw [flowSatAdd_toNat, flowTaskPeriod_toNat]
  split_ifs
  · omega
  · omega

/-- A task that has no storage joins a tier with the fallback deadline. -/
theorem flowEnqueue_stateless (hget : flowGet w k p = none) :
    TierKey (flowEnqueue w k p enqFlags).eff
      (flowFallbackDeadline k.now (flowTaskHintWeight w k p).1.1) := by
  unfold flowEnqueue
  simp only [hget]
  split
  · rename_i es hx
    exact tierKey_exiting _ hx
  split
  · obtain ⟨val, heff⟩ := flowEnqueueGateMiss_eff w k p enqFlags
    rw [heff]
    exact (tierKey_overflow _ _ _ _).append (tierKey_kicks _ _ _)
  have hprep (key : UInt64) : TierKey (flowTaskHintWeight w k p).2 key :=
    tierKey_of_none fun e he => insertedTo_of_isPrep (flowTaskHintWeight_isPrep w k p e he)
  unfold flowEnqueueNoState
  simp only
  split
  · exact ((hprep _).append (tierKey_insert _ _ _)).append (tierKey_kicks _ _ _)
  · exact ((hprep _).append (tierKey_overflow _ _ _ _)).append (tierKey_kicks _ _ _)

theorem exactPeriod_bounds (t : FlowTaskCtx) : 0 < exactPeriod t ∧ exactPeriod t ≤ 2 ^ 42 := by
  have hhint := t.hintUs.toNat_lt
  unfold exactPeriod
  split
  · omega
  split
  · rename_i hne
    have hpos : t.hintUs.toNat ≠ 0 := fun h => hne (UInt32.toNat_inj.mp h)
    omega
  · omega

theorem exactKey_le (t : FlowTaskCtx) (now : ℕ) (boost : Bool) :
    exactKey t now boost ≤ t.deadline.toNat := by
  unfold exactKey
  simp only
  split
  · omega
  · omega

theorem exactKey_ge {t : FlowTaskCtx} {now : ℕ} (boost : Bool) (hd : now ≤ t.deadline.toNat) :
    min now t.vruntime.toNat ≤ exactKey t now boost := by
  unfold exactKey
  simp only
  split
  · omega
  · omega

/-- A newcomer to a tier is not before the clock, nor before what its ledger is clamped to. -/
theorem tierKey_bounds {dsq : ℕ} {key flags : UInt64} (hnow : k.now.toNat < 2 ^ 62)
    (hv : ∀ t, w.taskCtx p = some t → t.vruntime.toNat < 2 ^ 62)
    (hmin : (flowCpuMin w (enqueueTarget w k p).toNat).toNat < 2 ^ 62)
    (hdsq : dsq ≠ flowOverflowDsq)
    (hins : Effect.insertVtime dsq key flags ∈ (flowEnqueue w k p enqFlags).eff) :
    min k.now.toNat ((flowCpuMin w (enqueueTarget w k p).toNat).toNat - 2000000) ≤ key.toNat
      ∧ key.toNat < 2 ^ 63 := by
  rcases hget : flowGet w k p with _ | t
  · obtain rfl := flowEnqueue_stateless hget dsq key flags hins hdsq
    have hbounds := flowFallbackDeadline_bounds (flowTaskHintWeight w k p).1.1 hnow
    omega
  · have hledger : t.vruntime.toNat < 2 ^ 62 := by
      rcases flowGet_some hget with hs | ⟨-, rfl⟩
      · exact hv t hs
      · exact Nat.two_pow_pos 62
    obtain ⟨t', -, hstores, htier⟩ := flowEnqueue_waits (enqueueTests_of_tier hget hins hdsq)
    have hvruntime := flowClampToMin_toNat w t (enqueueTarget w k p).toNat
    rw [← hstores.vruntime (target_of_tier hins hdsq)] at hvruntime
    have hdeadline := flowPredDeadline_exact t' hnow
    rw [← hstores.deadline] at hdeadline
    have hperiod := exactPeriod_bounds t'
    have hslice : t'.sliceNs ≠ 0 := hstores.slice ▸ waitSlice_ne_zero _ _ _ _
    generalize waitBoosts t t' k.now enqFlags = boost at htier
    rw [htier dsq key flags hins hdsq,
      fairKey_toNat boost hnow (by omega) (by omega) (by omega) hslice]
    have hge := exactKey_ge (t := t') boost (show k.now.toNat ≤ t'.deadline.toNat by omega)
    have hle := exactKey_le t' k.now.toNat boost
    omega

end Newcomer

section Forward

variable {n : ℕ}

/-- A fold moves a minimum forward, where neither wraps. -/
theorem perform_minOf_ge {e : Effect} (hn : n ≤ 2 ^ 62) (h : ∀ cpu, (minOf w cpu).toNat ≤ n)
    (he : ∀ cpu v, e = .minAdvance cpu v → v.toNat ≤ n) (c : ℕ) :
    (minOf w c).toNat ≤ (minOf (w.perform k p e) c).toNat := by
  rcases hfold : e.isFold with _ | _
  · unfold minOf
    rw [perform_row hfold]
  · cases e with
    | minAdvance cpu v =>
      have hv := he cpu v rfl
      have hcur := h cpu.toNat
      show (minOf w c).toNat ≤ (minOf (flowMinAdvance w cpu v) c).toNat
      unfold flowMinAdvance
      split
      · exact le_rfl
      split
      · exact le_rfl
      split
      · exact le_rfl
      simp only
      split
      · exact le_rfl
      split
      · exact le_rfl
      · rename_i hbefore
        rw [Bool.not_eq_true, Bool.not_eq_false', flowTimeBefore_iff] at hbefore
        by_cases hc : c = cpu.toNat
        · subst hc
          unfold minOf at hcur ⊢
          simp only [World.setCpu, Function.update_self]
          omega
        · simp [minOf, World.setCpu, hc]
    | _ => cases hfold

theorem run_minOf_ge (hn : n ≤ 2 ^ 62) : ∀ {es : List Effect} {w : World},
    (∀ cpu, (minOf w cpu).toNat ≤ n) → (∀ cpu v, .minAdvance cpu v ∈ es → v.toNat ≤ n) →
      ∀ c, (minOf w c).toNat ≤ (minOf (w.run k p es) c).toNat
  | [], _, _, _, _ => le_rfl
  | e :: es, w, h, he, c => by
    have hhead (cpu : ℤ) (v : UInt64) (hv : e = .minAdvance cpu v) : v.toNat ≤ n :=
      he cpu v (hv ▸ List.mem_cons_self)
    rw [run_cons]
    exact (perform_minOf_ge hn h hhead c).trans (run_minOf_ge hn (perform_minOf_le h hhead)
      (fun cpu v hv => he cpu v (List.mem_cons_of_mem e hv)) c)

theorem step_minOf_ge {c : Call} (hn : n ≤ 2 ^ 62) (hrow : ∀ cpu, (minOf w cpu).toNat ≤ n)
    (htask : ∀ q t, w.taskCtx q = some t →
      t.vruntime.toNat + 128 * (flowStopDelta c.view.now t.runAt).toNat ≤ n) (cpu : ℕ) :
    (minOf w cpu).toNat ≤ (minOf (w.step c) cpu).toNat := by
  rcases step_folds w c with h | ⟨p, runnable, w', hrows, h⟩
  · rw [h]
  · rw [h, ← hrows]
    exact run_minOf_ge hn (fun c => (hrows c).symm ▸ hrow c)
      (fun _ _ hv => flowStopping_folds (htask p) hv) cpu

/-- In the first 2^55 ns a turn moves no minimum back. -/
theorem Behind.forward {start : UInt64} {s : RunState} {t : Turn} (ht : Ticks s t)
    (hlow : (t.clock s.clock).toNat < 2 ^ 55) (h : Behind start s) (cpu : ℕ) :
    (minOf s.world cpu).toNat ≤ (minOf (timed.step s t).world cpu).toNat := by
  obtain ⟨-, htask, hrow⟩ := h.later ht
  show _ ≤ (minOf (core.step s.world t) cpu).toNat
  cases t with
  | call c =>
    refine step_minOf_ge ?_ hrow htask cpu
    show 128 * (c.view.now.toNat - start.toNat) ≤ 2 ^ 62
    change c.view.now.toNat < 2 ^ 55 at hlow
    omega
  | select k cap q prevCpu => exact (congrArg UInt64.toNat (select_minOf _ k _ cpu)).ge
  | seed rows => exact (congrArg UInt64.toNat (seedTopoWith_minOf _ rows cpu)).ge
  | pick cpu => exact le_rfl
  | dequeue q dsq => exact le_rfl

end Forward

section Feeders

/-- A live CPU feeds the tiers that are not the local queue of another one. -/
def Feeds (w : World) (d cpu : ℕ) : Prop :=
  flowCpuLive w cpu = true ∧ ∀ c < flowMaxCpus, flowLocalDsq c = d → c = cpu

instance (w : World) (d cpu : ℕ) : Decidable (Feeds w d cpu) :=
  inferInstanceAs (Decidable (_ ∧ _))

theorem feeds_of_tier {cpu : ℕ} (hl : flowCpuLive w cpu = true) (hd : d ∈ tierQueues w cpu) :
    Feeds w d cpu := by
  refine ⟨hl, fun c hc heq => ?_⟩
  obtain ⟨hln, hnm, -, -⟩ := dsq_kinds hc (flowDispatchNode_lt w cpu)
  rcases List.mem_cons.mp hd with h | hd
  · exact flowLocalDsq_inj (heq.trans h)
  · rcases List.mem_pair.mp hd with h | h
    · omega
    · omega

theorem flowCpuMin_live {cpu : ℕ} (hl : flowCpuLive w cpu = true) :
    flowCpuMin w cpu = minOf w cpu := by
  unfold flowCpuMin flowCpu
  rw [if_neg (Nat.not_le.mpr (flowCpuLive_iff.mp hl).2)]
  rfl

/-- The key of a newcomer to a tier, in the first 2^55 ns. -/
theorem joinKeys_bounds {start : UInt64} {s : RunState} {t : Turn} (ht : Ticks s t)
    (hlow : (t.clock s.clock).toNat < 2 ^ 55) (h : Behind start s) (hd : tierQueue d = true)
    {key : UInt64} (hkey : key ∈ joinKeys d s.world t) :
    (∃ cpu, Feeds s.world d cpu
        ∧ min (t.clock s.clock).toNat ((minOf s.world cpu).toNat - 2000000) ≤ key.toNat)
      ∧ key.toNat < 2 ^ 63 := by
  obtain ⟨hcreated, hne⟩ := of_decide_eq_true hd
  cases t with
  | call c =>
    obtain ⟨k, op⟩ := c
    cases op with
    | enqueue q enqFlags =>
      obtain ⟨e, he, hinto⟩ := List.mem_filterMap.mp hkey
      obtain ⟨flags, rfl⟩ : ∃ flags, e = .insertVtime d key flags := by
        cases e with
        | insertVtime dsq key' flags =>
          obtain ⟨rfl, h⟩ := ite_eq_iff.mp hinto |>.resolve_right fun h => nomatch h.2
          exact ⟨flags, by rw [Option.some.inj h]⟩
        | _ => cases hinto
      have hins : d ∈ insertions (flowEnqueue s.world k q enqFlags).eff :=
        List.mem_filterMap.mpr ⟨_, he, rfl⟩
      obtain ⟨-, htask, hrow⟩ := h.later ht
      change k.now.toNat < 2 ^ 55 at hlow
      change ∀ p t', _ → _ ≤ 128 * (k.now.toNat - start.toNat) at htask
      have hlive : flowCpuLive s.world (enqueueTarget s.world k q).toNat = true := by
        obtain ⟨-, hid, hmax, -⟩ := flowCpuOk_iff.mp (target_of_tier he hne)
        exact flowCpuLive_iff.mpr ⟨hid, hmax⟩
      have hmin : (minOf s.world (enqueueTarget s.world k q).toNat).toNat
          ≤ 128 * (k.now.toNat - start.toNat) := hrow _
      have hkeys := tierKey_bounds (by omega)
        (fun t' ht' => ((Nat.le_add_right _ _).trans (htask q t' ht')).trans_lt (by omega))
        (by rw [flowCpuMin_live hlive]; omega) hne he
      rw [flowCpuMin_live hlive] at hkeys
      refine ⟨⟨_, feeds_of_tier hlive ?_, hkeys.1⟩, hkeys.2⟩
      generalize hdsq : d = dsq at hins
      cases flowEnqueue_inserted q enqFlags dsq hins with
      | terminal cpu hok => exact absurd hdsq (scxLocalOn_ne hcreated)
      | reject => exact absurd hdsq hne
      | tier hok hmem => exact hmem
    | _ => cases hkey
  | _ => cases hkey

end Feeders

/-- A calm turn of the first 2^55 ns. -/
def Early (s : RunState) (t : Turn) : Prop := Calm s t ∧ (t.clock s.clock).toNat < 2 ^ 55

instance (s : RunState) (t : Turn) : Decidable (Early s t) :=
  inferInstanceAs (Decidable (_ ∧ _))

/-- One that does not enqueue the task. -/
def Unjoined (p : TaskRef) (s : RunState) (t : Turn) : Prop := Early s t ∧ joins p s.world t = 0

instance (s : RunState) (t : Turn) : Decidable (Unjoined p s t) :=
  inferInstanceAs (Decidable (_ ∧ _))

/-- What every run from boot keeps. -/
structure Timely (start : UInt64) (d : ℕ) (s : RunState) : Prop where
  behind : Behind start s
  ordered : Ordered 0 (s.world.dsq d)

/-- The clock, and by the lag bound the minimum of each CPU that feeds the tier, are past a key. -/
structure Past (d key : ℕ) (s : RunState) : Prop where
  clock : key ≤ s.clock.toNat
  row : ∀ cpu, Feeds s.world d cpu → key + 2000000 ≤ (minOf s.world cpu).toNat

/-- The keys of the task in the queue. -/
def KeysUpTo (p : TaskRef) (d key : ℕ) (w : World) : Prop :=
  ∀ e ∈ w.dsq d, Entry.isOf p e = true → e.key.toNat ≤ key

instance (p : TaskRef) (d key : ℕ) (w : World) : Decidable (KeysUpTo p d key w) :=
  inferInstanceAs (Decidable (∀ e ∈ w.dsq d, _ → _))

section Turn

variable {start : UInt64} {s : RunState} {t : Turn} {key : ℕ}

theorem Timely.joinsNear (ht : Early s t) (hd : tierQueue d = true) (h : Timely start d s) :
    JoinsNear 0 d s.world t := by
  intro key hkey
  obtain ⟨-, hlt⟩ := joinKeys_bounds ht.1.1 ht.2 h.behind hd hkey
  simpa [KeyNear] using hlt

theorem Timely.step (hd : tierQueue d = true) (ht : Early s t) (h : Timely start d s) :
    Timely start d (timed.step s t) where
  behind := h.behind.step ht.1
  ordered := turn_ordered (tierQueue_created d hd) (h.joinsNear ht hd) h.ordered

theorem Past.step (ht : Early s t) (hb : Behind start s) (h : Past d key s) :
    Past d key (timed.step s t) where
  clock := h.clock.trans (UInt64.le_iff_toNat_le.mp ht.1.1)
  row cpu hfeeds := by
    have hcpus : (core.step s.world t).nrCpuIds = s.world.nrCpuIds :=
      (Prod.mk.inj (turn_counts s.world t)).1
    have hlive : flowCpuLive s.world cpu = true :=
      flowCpuLive_iff.mpr (hcpus ▸ flowCpuLive_iff.mp hfeeds.1)
    exact (h.row cpu ⟨hlive, hfeeds.2⟩).trans (hb.forward ht.1.1 ht.2 cpu)

theorem KeysUpTo.step (hlt : d < scxDsqLocalOn) (ht : joins p s.world t = 0)
    (h : KeysUpTo p d key s.world) : KeysUpTo p d key (timed.step s t).world := by
  unfold KeysUpTo
  generalize hl : (timed.step s t).world.dsq d = l
  cases hl ▸ turn_dsq (w := s.world) hlt t with
  | left hnone hsub => exact fun e he => h e (hsub.subset he)
  | @placed k q enqFlags key' hkey =>
    intro e he hmine
    rcases mem_insertByKey he with rfl | he
    · have hq : q = p := of_decide_eq_true hmine
      rw [joins, if_pos hq] at ht
      exact absurd ht one_ne_zero
    · exact h e he hmine

/-- Nothing overtakes the task once the newcomers are past its key. -/
theorem earlier_eq_zero (hd : tierQueue d = true) (ht : Early s t) (h : Timely start d s)
    (hpast : Past d key s) (hkeys : KeysUpTo p d key s.world) : earlier p d s.world t = 0 := by
  refine if_neg fun hany => ?_
  obtain ⟨newKey, hnew, hbefore⟩ := List.any_eq_true.mp hany
  obtain ⟨e, he, hboth⟩ := List.any_eq_true.mp hbefore
  obtain ⟨hmine, hearlier⟩ := Bool.and_eq_true_iff.mp hboth
  obtain ⟨⟨cpu, hfeeds, hge⟩, hlt⟩ := joinKeys_bounds ht.1.1 ht.2 h.behind hd hnew
  have hclock := hpast.clock
  have hrow := hpast.row cpu hfeeds
  have hmineKey := hkeys e he hmine
  have hticks := UInt64.le_iff_toNat_le.mp ht.1.1
  rw [not_flowTimeBefore_of_le (by omega) (by omega)] at hearlier
  cases hearlier

end Turn

/-- From a state of a run from boot on in which the clock and, with the lag bound, the minima of the
CPUs that feed the tier are past the key of a waiting task, nothing is placed before the task, and the
passes that reach it are no more than its place. -/
theorem run_unpassed (nrCpuIds nrNodeIds : ℕ) (topoNode : ℕ → ℕ) (start : UInt64)
    (pre post : List Turn) (p : TaskRef) (d key : ℕ) (hd : tierQueue d = true)
    (hpre : timed.Along Early ⟨World.boot nrCpuIds nrNodeIds topoNode, start⟩ pre)
    (hpost : timed.Along (Unjoined p)
      (timed.exec ⟨World.boot nrCpuIds nrNodeIds topoNode, start⟩ pre) post)
    (hpast : Past d key (timed.exec ⟨World.boot nrCpuIds nrNodeIds topoNode, start⟩ pre))
    (hkeys : KeysUpTo p d key
      (timed.exec ⟨World.boot nrCpuIds nrNodeIds topoNode, start⟩ pre).world) :
    let s := timed.exec ⟨World.boot nrCpuIds nrNodeIds topoNode, start⟩ pre
    timed.total (fun s t => earlier p d s.world t) s post = 0
      ∧ placeOf p d (timed.exec s post).world
          + timed.total (fun s t => reaches p d s.world t) s post ≤ placeOf p d s.world := by
  intro s
  have hlt := tierQueue_created d hd
  have hboot : Timely start d ⟨World.boot nrCpuIds nrNodeIds topoNode, start⟩ :=
    ⟨.boot nrCpuIds nrNodeIds topoNode start, Ordered.nil 0⟩
  have hmid : Timely start d s ∧ Past d key s ∧ KeysUpTo p d key s.world :=
    ⟨Machine.exec_along (fun _ _ ht hs => hs.step hd ht) hpre hboot, hpast, hkeys⟩
  have hkeep (s : RunState) (t : Turn) (ht : Unjoined p s t)
      (h : Timely start d s ∧ Past d key s ∧ KeysUpTo p d key s.world) :
      Timely start d (timed.step s t) ∧ Past d key (timed.step s t)
        ∧ KeysUpTo p d key (timed.step s t).world :=
    ⟨h.1.step hd ht.1, h.2.1.step ht.1 h.1.behind, h.2.2.step hlt ht.2⟩
  have hnone (s : RunState) (t : Turn) (ht : Unjoined p s t)
      (h : Timely start d s ∧ Past d key s ∧ KeysUpTo p d key s.world) :
      earlier p d s.world t = 0 := earlier_eq_zero hd ht.1 h.1 h.2.1 h.2.2
  constructor
  · have hsum := Machine.balance (φ := fun _ => 0) (g := fun _ _ => 0) hkeep
      (f := fun s t => earlier p d s.world t) (fun s t ht h => by rw [hnone s t ht h]) hpost hmid
    rw [timed.total_zero] at hsum
    exact (Nat.zero_add _).symm.trans hsum
  · have hsum := Machine.amortized (φ := fun s => placeOf p d s.world) (g := fun _ _ => 0) hkeep
      (f := fun s t => reaches p d s.world t) (fun s t ht h _ => ?_) hpost hmid le_rfl
    · rwa [timed.total_zero] at hsum
    · have hone := turn_progress hlt ⟨ht.2, h.1.joinsNear ht.1 hd⟩ h.1.ordered
      rw [hnone s t ht h] at hone
      exact (Nat.add_le_add_left (reaches_le_serves p d s.world t) _).trans hone

/-- Task 1 waits for CPU 0 while task 2 runs there for 9 ms. -/
def waitBehindRun : List Turn :=
  [.call ⟨Kernel.plain 1000, .enqueue 2 0⟩, .call ⟨Kernel.plain 2000, .dispatch 0⟩, .pick 0,
    .call ⟨Kernel.plain 3000, .running 2⟩, .call ⟨Kernel.plain 4000, .enqueue 1 0⟩,
    .call ⟨Kernel.plain 9003000, .stopping 2 true⟩]

/-- Task 2 comes back, and the pass moves task 1 all the same. -/
theorem run_unpassed_waitBehindRun :
    let s := timed.exec ⟨World.boot 2 1 fun _ => 0, 1000⟩ waitBehindRun
    let post : List Turn :=
      [.call ⟨Kernel.plain 9003000, .enqueue 2 0⟩, .call ⟨Kernel.plain 9004000, .dispatch 0⟩]
    timed.total (fun s t => earlier 1 (flowLocalDsq 0) s.world t) s post = 0
      ∧ placeOf 1 (flowLocalDsq 0) (timed.exec s post).world
          + timed.total (fun s t => reaches 1 (flowLocalDsq 0) s.world t) s post
        ≤ placeOf 1 (flowLocalDsq 0) s.world :=
  run_unpassed 2 1 (fun _ => 0) 1000 waitBehindRun
    [.call ⟨Kernel.plain 9003000, .enqueue 2 0⟩, .call ⟨Kernel.plain 9004000, .dispatch 0⟩] 1
    (flowLocalDsq 0) 50000 (by decide) (by decide +kernel) (by decide +kernel)
    ⟨by decide +kernel, fun _ h => h.2 0 (by decide) rfl ▸ by decide +kernel⟩ (by decide +kernel)

end ScxFlow
