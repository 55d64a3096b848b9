import ScxFlow.Proofs.Conservation
import ScxFlow.System

/-!
# What one steal of an idle CPU reaches

A steal reads the peers of a window behind its cursor and settles on one of them before it reads a
mask: the first with work on the thief's node, else the first with work at all.  It then walks that
one queue, so it moves a task exactly when the peer it settled on holds one for the thief.
-/

namespace ScxFlow

variable {w : World} {k : Kernel} {cpu cursor visits window : ℕ}

/-- The mask of the source for a power of two is its modulo. -/
theorem flowWrapIdx_eq (base : ℕ) {n : ℕ} (hn : n ≠ 0) : flowWrapIdx base n = base % n := by
  unfold flowWrapIdx flowIsPow2
  rw [if_neg hn]
  split
  · rename_i h
    obtain ⟨e, rfl⟩ := Nat.ne_zero_and_sub_one_eq_zero_iff_isPowerOfTwo.mp (of_decide_eq_true h)
    exact Nat.and_two_pow_sub_one_eq_mod base e
  · rfl

section Window

/-- The peer at one offset of the window behind a cursor. -/
def windowPeer (w : World) (cursor off : ℕ) : ℕ := (cursor + 1 + off) % w.nrCpuIds

/-- The peer at the offset is not the thief and has work queued. -/
def PeerWork (w : World) (cpu cursor off : ℕ) : Prop :=
  windowPeer w cursor off ≠ cpu ∧ w.dsq (flowLocalDsq (windowPeer w cursor off)) ≠ []

instance (w : World) (cpu cursor off : ℕ) : Decidable (PeerWork w cpu cursor off) :=
  inferInstanceAs (Decidable (_ ∧ _))

/-- The peer at the offset is on the node of the thief. -/
def PeerNear (w : World) (cpu cursor off : ℕ) : Prop :=
  flowCpuNode w (windowPeer w cursor off) = flowCpuNode w cpu

instance (w : World) (cpu cursor off : ℕ) : Decidable (PeerNear w cpu cursor off) :=
  inferInstanceAs (Decidable (_ = _))

/-- A thief settles on `off'` before `off`: it is near and `off` is not, or it comes first. -/
def PeerAhead (w : World) (cpu cursor off' off : ℕ) : Prop :=
  (PeerNear w cpu cursor off' ∧ ¬ PeerNear w cpu cursor off)
    ∨ ((PeerNear w cpu cursor off' ↔ PeerNear w cpu cursor off) ∧ off' < off)

instance (w : World) (cpu cursor off' off : ℕ) : Decidable (PeerAhead w cpu cursor off' off) :=
  inferInstanceAs (Decidable (_ ∨ _))

/-- The peer a steal settles on: none of the window with work comes ahead of it. -/
def PeerPicked (w : World) (cpu cursor off : ℕ) : Prop :=
  off < flowStealMaxPeers ∧ PeerWork w cpu cursor off
    ∧ ∀ off' < flowStealMaxPeers, PeerWork w cpu cursor off' → ¬ PeerAhead w cpu cursor off' off

instance (w : World) (cpu cursor off : ℕ) : Decidable (PeerPicked w cpu cursor off) :=
  inferInstanceAs (Decidable (_ ∧ _ ∧ _))

end Window

section Peers

/-- The first offset of `offs` with work on the thief's node, or off it. -/
def peerFirst (w : World) (cpu cursor : ℕ) (near : Bool) (offs : List ℕ) : Option ℕ :=
  offs.find? fun off =>
    decide (PeerWork w cpu cursor off) && decide (PeerNear w cpu cursor off) == near

/-- The offset of a window that a thief settles on: near work first, then the order of the window. -/
def peerPick (w : World) (cpu cursor window : ℕ) : Option ℕ :=
  (peerFirst w cpu cursor true (List.range window)).or
    (peerFirst w cpu cursor false (List.range window))

theorem windowPeer_wrap (hn : w.nrCpuIds ≠ 0) (off : ℕ) :
    flowWrapIdx (windowPeer w cursor 0 + off) w.nrCpuIds = windowPeer w cursor off := by
  rw [flowWrapIdx_eq _ hn]
  unfold windowPeer
  rw [Nat.add_zero, Nat.mod_add_mod]

theorem windowPeer_live (hn : w.nrCpuIds ≠ 0) (hle : w.nrCpuIds ≤ flowMaxCpus) (off : ℕ) :
    flowCpuLive w (windowPeer w cursor off) = true := by
  have hlt : windowPeer w cursor off < w.nrCpuIds := Nat.mod_lt _ (Nat.pos_of_ne_zero hn)
  exact flowCpuLive_iff.mpr ⟨hlt, hlt.trans_le hle⟩

/-- One offset finds at most one peer, which fills a place that is still free. -/
theorem stealPeer_eq (hn : w.nrCpuIds ≠ 0) (hle : w.nrCpuIds ≤ flowMaxCpus)
    (hvisits : visits < flowDispatchMaxVisit) (f : StealPeers) {off : ℕ} (hoff : off < window) :
    stealPeer w cpu visits window (windowPeer w cursor 0) f off
      = ⟨f.localPeer.or ((peerFirst w cpu cursor true [off]).map (windowPeer w cursor)),
        f.remotePeer.or ((peerFirst w cpu cursor false [off]).map (windowPeer w cursor))⟩ := by
  have hfirst (near : Bool) : peerFirst w cpu cursor near [off]
      = if PeerWork w cpu cursor off ∧ decide (PeerNear w cpu cursor off) = near then some off
        else none := by
    unfold peerFirst
    rw [List.find?_singleton]
    simp
  have hq : nrQueued w (flowLocalDsq (windowPeer w cursor off)) ≤ 0
      ↔ w.dsq (flowLocalDsq (windowPeer w cursor off)) = [] := by
    rw [← not_lt, nrQueued_pos, not_not]
  unfold stealPeer
  rw [if_neg (not_le.mpr hoff), if_neg (not_le.mpr hvisits), windowPeer_wrap hn, hfirst, hfirst]
  simp only [windowPeer_live hn hle, Bool.not_true, Bool.false_eq_true, ↓reduceIte,
    Int.toNat_natCast, Nat.cast_inj, hq]
  obtain ⟨near, far⟩ := f
  by_cases hw : PeerWork w cpu cursor off
  · rw [if_neg hw.1, if_neg hw.2]
    by_cases hnear : PeerNear w cpu cursor off
    · have hnode : flowCpuNode w (windowPeer w cursor off) = flowCpuNode w cpu := hnear
      rcases near with _ | near <;> rcases far with _ | far <;> simp [hw, hnear, hnode]
    · have hnode : ¬ flowCpuNode w (windowPeer w cursor off) = flowCpuNode w cpu := hnear
      rcases near with _ | near <;> rcases far with _ | far <;> simp [hw, hnear, hnode]
  · have hskip : windowPeer w cursor off = cpu
        ∨ w.dsq (flowLocalDsq (windowPeer w cursor off)) = [] := by
      by_contra hnone
      rw [not_or] at hnone
      exact hw hnone
    simp only [hw, false_and, ↓reduceIte, Option.map_none, Option.or_none]
    split
    · rfl
    · split
      · rfl
      · rename_i hne
        rw [if_pos (hskip.resolve_left hne)]

theorem peerFirst_cons (near : Bool) (off : ℕ) (offs : List ℕ) :
    peerFirst w cpu cursor near (off :: offs)
      = (peerFirst w cpu cursor near [off]).or (peerFirst w cpu cursor near offs) := by
  unfold peerFirst
  rw [← List.find?_append, List.singleton_append]

/-- A scan of a window finds the first peer with work on the thief's node and the first off it. -/
theorem stealPeers_eq (hn : w.nrCpuIds ≠ 0) (hle : w.nrCpuIds ≤ flowMaxCpus)
    (hvisits : visits < flowDispatchMaxVisit) :
    ∀ (offs : List ℕ) (f : StealPeers), (∀ off ∈ offs, off < window) →
      offs.foldl (stealPeer w cpu visits window (windowPeer w cursor 0)) f
        = ⟨f.localPeer.or ((peerFirst w cpu cursor true offs).map (windowPeer w cursor)),
          f.remotePeer.or ((peerFirst w cpu cursor false offs).map (windowPeer w cursor))⟩
  | [], f, _ => by simp [peerFirst]
  | off :: offs, f, hoffs => by
    rw [List.foldl_cons,
      stealPeers_eq hn hle hvisits offs _ fun o ho => hoffs o (List.mem_cons_of_mem off ho),
      stealPeer_eq hn hle hvisits f (hoffs off List.mem_cons_self), peerFirst_cons true off offs,
      peerFirst_cons false off offs, Option.map_or, Option.map_or, Option.or_assoc,
      Option.or_assoc]

/-- The offsets past the window find nothing. -/
theorem stealPeers_range (hn : w.nrCpuIds ≠ 0) (hle : w.nrCpuIds ≤ flowMaxCpus)
    (hvisits : visits < flowDispatchMaxVisit) (hwindow : window ≤ flowStealMaxPeers) :
    (List.range flowStealMaxPeers).foldl (stealPeer w cpu visits window (windowPeer w cursor 0))
        ⟨none, none⟩
      = ⟨(peerFirst w cpu cursor true (List.range window)).map (windowPeer w cursor),
        (peerFirst w cpu cursor false (List.range window)).map (windowPeer w cursor)⟩ := by
  obtain ⟨m, hm⟩ := Nat.exists_eq_add_of_le hwindow
  have hpast : ∀ (offs : List ℕ) (f : StealPeers), (∀ off ∈ offs, window ≤ off) →
      offs.foldl (stealPeer w cpu visits window (windowPeer w cursor 0)) f = f := by
    intro offs f hoffs
    refine List.foldl_observe id f fun f off hoff => ?_
    exact if_pos (hoffs off hoff)
  rw [hm, List.range_add, List.foldl_append, stealPeers_eq hn hle hvisits _ _ fun off ho =>
    List.mem_range.mp ho, Option.none_or, Option.none_or]
  refine hpast _ _ fun off hoff => ?_
  obtain ⟨i, -, rfl⟩ := List.mem_map.mp hoff
  exact Nat.le_add_right _ _

theorem peerFirst_eq_some {near : Bool} {off n : ℕ} :
    peerFirst w cpu cursor near (List.range n) = some off
      ↔ off < n ∧ PeerWork w cpu cursor off ∧ (decide (PeerNear w cpu cursor off) = near)
        ∧ ∀ off' < off, PeerWork w cpu cursor off' →
          decide (PeerNear w cpu cursor off') ≠ near := by
  unfold peerFirst
  rw [List.find?_range_eq_some]
  simp [imp_iff_not_or]
  tauto

theorem peerFirst_eq_none {near : Bool} {n : ℕ} :
    peerFirst w cpu cursor near (List.range n) = none
      ↔ ∀ off < n, PeerWork w cpu cursor off → decide (PeerNear w cpu cursor off) ≠ near := by
  unfold peerFirst
  simp

theorem peerPick_eq_some {off : ℕ} :
    peerPick w cpu cursor flowStealMaxPeers = some off ↔ PeerPicked w cpu cursor off := by
  unfold peerPick PeerPicked PeerAhead
  rw [Option.or_eq_some_iff, peerFirst_eq_some, peerFirst_eq_none, peerFirst_eq_some]
  constructor
  · rintro (⟨hlt, hw, hn, hall⟩ | ⟨hnone, hlt, hw, hn, hall⟩)
    · rw [decide_eq_true_eq] at hn
      refine ⟨hlt, hw, fun off' _ hw' => ?_⟩
      rintro (⟨-, hfar⟩ | ⟨hsame, hbefore⟩)
      · exact hfar hn
      · exact hall off' hbefore hw' (decide_eq_true (hsame.mpr hn))
    · rw [decide_eq_false_iff_not] at hn
      refine ⟨hlt, hw, fun off' hlt' hw' => ?_⟩
      rintro (⟨hnear, -⟩ | ⟨hsame, hbefore⟩)
      · exact hnone off' hlt' hw' (decide_eq_true hnear)
      · exact hall off' hbefore hw' (decide_eq_false fun h => hn (hsame.mp h))
  · rintro ⟨hlt, hw, hall⟩
    by_cases hn : PeerNear w cpu cursor off
    · refine Or.inl ⟨hlt, hw, decide_eq_true hn, fun off' hbefore hw' hnear => ?_⟩
      have hnear' := of_decide_eq_true hnear
      exact hall off' (hbefore.trans hlt) hw' (Or.inr ⟨iff_of_true hnear' hn, hbefore⟩)
    · refine Or.inr ⟨fun off' hlt' hw' hnear => ?_, hlt, hw, decide_eq_false hn,
        fun off' hbefore hw' hfar => ?_⟩
      · exact hall off' hlt' hw' (Or.inl ⟨of_decide_eq_true hnear, hn⟩)
      · have hfar' := of_decide_eq_false hfar
        exact hall off' (hbefore.trans hlt) hw' (Or.inr ⟨iff_of_false hfar' hn, hbefore⟩)

end Peers

section Steal

theorem stealWindow_le (w : World) (cpu : ℤ) (visits : ℕ) :
    stealWindow w cpu visits ≤ flowStealMaxPeers := by
  have hmin : flowStealMinPeers ≤ flowStealMaxPeers := Nat.le_add_right 4 4
  have hclamp (n : ℕ) : (if n > flowStealMaxPeers then flowStealMaxPeers else n)
      ≤ flowStealMaxPeers := by
    split
    · exact le_rfl
    · omega
  unfold stealWindow
  simp only
  split
  · exact hmin
  · split
    · exact hmin
    · exact hclamp _

/-- A steal moves from the queue of the peer of its window that it settles on. -/
theorem flowStealOne_settles {s : Pass} (hn : 2 ≤ s.world.nrCpuIds)
    (hle : s.world.nrCpuIds ≤ flowMaxCpus) (hlive : flowCpuLive s.world cpu = true)
    (hvisits : s.visits < flowDispatchMaxVisit) :
    flowStealOne k cpu cursor s
      = match peerPick s.world cpu cursor (stealWindow s.world cpu s.visits) with
        | none => (s, 0)
        | some off =>
          flowMoveOneHint k (flowLocalDsq (windowPeer s.world cursor off)) cpu
            (nrQueued s.world (flowLocalDsq (windowPeer s.world cursor off))) s := by
  have hhosts : ¬ (s.world.nrCpuIds ≤ 1 ∨ s.world.nrCpuIds > flowMaxCpus) := by omega
  have hstart : flowWrapIdx (cursor + 1) s.world.nrCpuIds = windowPeer s.world cursor 0 :=
    flowWrapIdx_eq _ (by omega)
  have hneg : ¬ (cpu : ℤ) < 0 := by omega
  have hv : ¬ s.visits ≥ flowDispatchMaxVisit := by omega
  unfold flowStealOne peerPick
  simp only [Int.toNat_natCast, hneg, hlive, hv, hhosts, hstart, ↓reduceIte, Bool.not_true,
    Bool.false_eq_true]
  rw [stealPeers_range (by omega) hle hvisits (stealWindow_le s.world cpu s.visits)]
  rcases peerFirst s.world cpu cursor true _ with _ | off
  · rcases peerFirst s.world cpu cursor false _ with _ | off
    · rfl
    · rfl
  · rfl

/-- An idle thief with no visits spent has the full window. -/
theorem stealWindow_idle {w : World} (hlive : cpu < flowMaxCpus)
    (hidle : (w.cpuState cpu).runningPid = 0) : stealWindow w cpu 0 = flowStealMaxPeers := by
  have hcpu : flowCpu w cpu = some (w.cpuState cpu) := if_neg (not_le.mpr hlive)
  unfold stealWindow
  rw [Int.toNat_natCast, hcpu]
  simp only [hidle, ne_eq, not_true_eq_false, ↓reduceIte]
  rfl

/-- A steal with no visits spent on an idle CPU walks the queue of the peer it settles on. -/
theorem flowStealOne_walks {s : Pass} (hle : s.world.nrCpuIds ≤ flowMaxCpus)
    (hlive : cpu < s.world.nrCpuIds) (hidle : (s.world.cpuState cpu).runningPid = 0)
    (hvisits : s.visits = 0) :
    flowStealOne k cpu cursor s
      = match peerPick s.world cpu cursor flowStealMaxPeers with
        | none => (s, 0)
        | some off =>
          let dsq := flowLocalDsq (windowPeer s.world cursor off)
          let r := tierWalk k cpu dsq 0 (s.world.dsq dsq)
          (s.walked dsq cpu r true, if r.hit.isSome then 1 else 0) := by
  by_cases hone : s.world.nrCpuIds ≤ 1
  · -- a host of one CPU has no peer
    have hnone : peerPick s.world cpu cursor flowStealMaxPeers = none := by
      rw [Option.eq_none_iff_forall_ne_some]
      intro off hoff
      refine (peerPick_eq_some.mp hoff).2.1.1 ?_
      have hpeer : windowPeer s.world cursor off < s.world.nrCpuIds := Nat.mod_lt _ (by omega)
      omega
    rw [hnone]
    unfold flowStealOne
    simp [hone]
  have hcpuLive : flowCpuLive s.world cpu = true :=
    flowCpuLive_iff.mpr ⟨hlive, hlive.trans_le hle⟩
  rw [flowStealOne_settles (by omega) hle hcpuLive (by rw [hvisits]; exact Nat.succ_pos 7), hvisits,
    stealWindow_idle (hlive.trans_le hle) hidle]
  rcases hpick : peerPick s.world cpu cursor flowStealMaxPeers with _ | off
  · rfl
  · dsimp only
    rw [flowMoveOneHint_walk _ hcpuLive (by rw [hvisits]; exact Nat.succ_pos 7)
      (peerPick_eq_some.mp hpick).2.1.2, hvisits]

/-- The peer a steal settles on holds, among its first eight tasks, one whose mask allows the
thief. -/
def StealFinds (w : World) (k : Kernel) (cpu cursor : ℕ) : Prop :=
  ∃ off, PeerPicked w cpu cursor off
    ∧ ∃ e ∈ (w.dsq (flowLocalDsq (windowPeer w cursor off))).take flowDispatchMaxVisit,
      (k.task e.task).cpusPtr cpu = true

theorem flowMoveCandidate_of_moves (hmoves : ∀ dsq p, k.dsqMove dsq p = true) (dsq : ℕ)
    (p : TaskRef) : flowMoveCandidate k dsq cpu p = (k.task p).cpusPtr cpu := by
  unfold flowMoveCandidate flowMaskOk
  have hneg : ¬ (cpu : ℤ) < 0 := by omega
  rw [if_neg hneg, if_neg hneg, Int.toNat_natCast, hmoves]
  cases (k.task p).cpusPtr cpu <;> rfl

theorem stealFinds_iff (hmoves : ∀ dsq p, k.dsqMove dsq p = true) :
    StealFinds w k cpu cursor ↔ ∃ off, peerPick w cpu cursor flowStealMaxPeers = some off
      ∧ (tierWalk k cpu (flowLocalDsq (windowPeer w cursor off)) 0
        (w.dsq (flowLocalDsq (windowPeer w cursor off)))).hit ≠ none := by
  unfold StealFinds tierWalk
  simp only [peerPick_eq_some, Nat.sub_zero, ne_eq, Scan.hit_eq_none_iff, not_forall,
    Bool.not_eq_false, exists_prop, flowMoveCandidate_of_moves hmoves]

/-- A steal with no visits spent on an idle CPU moves one task exactly when the peer it settles on
holds one for the thief among its first eight. -/
theorem flowStealOne_moves_iff (k : Kernel) (cpu cursor : ℕ) (s : Pass)
    (hle : s.world.nrCpuIds ≤ flowMaxCpus) (hlive : cpu < s.world.nrCpuIds)
    (hidle : (s.world.cpuState cpu).runningPid = 0) (hvisits : s.visits = 0)
    (hmoves : ∀ dsq p, k.dsqMove dsq p = true) :
    (StealFinds s.world k cpu cursor → (flowStealOne k cpu cursor s).2 = 1
        ∧ ∃ v, movesOf (flowStealOne k cpu cursor s).1.log = movesOf s.log ++ [v])
      ∧ (¬ StealFinds s.world k cpu cursor → (flowStealOne k cpu cursor s).2 = 0
        ∧ movesOf (flowStealOne k cpu cursor s).1.log = movesOf s.log
        ∧ (flowStealOne k cpu cursor s).1.world = s.world) := by
  rw [flowStealOne_walks hle hlive hidle hvisits, stealFinds_iff hmoves]
  rcases hpick : peerPick s.world cpu cursor flowStealMaxPeers with _ | off
  · exact ⟨by simp, fun _ => ⟨rfl, rfl, rfl⟩⟩
  dsimp only
  generalize hr : tierWalk k cpu (flowLocalDsq (windowPeer s.world cursor off)) 0
    (s.world.dsq (flowLocalDsq (windowPeer s.world cursor off))) = r
  rcases hhit : r.hit with _ | e
  · refine ⟨?_, fun _ => ?_⟩
    · rintro ⟨off', hoff', hhit'⟩
      obtain rfl := Option.some.inj hoff'
      rw [hr] at hhit'
      exact absurd hhit hhit'
    · rw [walked_kept (by rw [hhit]; rfl)]
      simp
  · refine ⟨fun _ => ?_, fun hno => absurd ⟨off, rfl, ?_⟩ hno⟩
    · rw [walked_moved hhit]
      simp
    · rw [hr, hhit]
      exact Option.some_ne_none e

/-- Two nodes of two CPUs, where a task of CPU 1 alone waits on CPU 1 and task 2 on CPU 2. -/
def World.nearForeign : World :=
  ((World.boot 4 2 fun cpu => cpu / 2).setDsq (flowLocalDsq 1) [⟨1, 5⟩]).setDsq (flowLocalDsq 2)
    [⟨2, 5⟩]

/-- Task 1 may run on CPU 1 alone, the others anywhere. -/
def Kernel.nearForeign : Kernel :=
  { Kernel.plain 1000 with
    task := fun p => if p = 1 then { TaskStruct.plain 1 with cpusPtr := fun cpu => cpu == 1 }
      else TaskStruct.plain p }

/-- CPU 0 settles on its near peer, whose head it may not run, and moves nothing, though the head
of CPU 2 in the same window may run on it. -/
theorem flowStealOne_passes_by :
    (∃ off, off < flowStealMaxPeers ∧ windowPeer World.nearForeign 0 off = 2
        ∧ windowPeer World.nearForeign 0 off ≠ 0)
      ∧ World.nearForeign.dsq (flowLocalDsq 2) = [⟨2, 5⟩]
      ∧ (Kernel.nearForeign.task 2).cpusPtr 0 = true
      ∧ (∀ dsq p, Kernel.nearForeign.dsqMove dsq p = true)
      ∧ flowCpuLive World.nearForeign 0 = true ∧ (World.nearForeign.cpuState 0).runningPid = 0
      ∧ (flowStealOne Kernel.nearForeign 0 0 (Pass.start World.nearForeign 8)).2 = 0 :=
  ⟨⟨1, by decide, rfl, by decide⟩, rfl, rfl, fun _ _ => rfl, rfl, rfl, rfl⟩

theorem flowStealOne_moves_iff_near :
    (StealFinds World.nearForeign Kernel.nearForeign 3 0 →
        (flowStealOne Kernel.nearForeign 3 0 (Pass.start World.nearForeign 8)).2 = 1
        ∧ ∃ v, movesOf (flowStealOne Kernel.nearForeign 3 0 (Pass.start World.nearForeign 8)).1.log
          = movesOf (Pass.start World.nearForeign 8).log ++ [v])
      ∧ (¬ StealFinds World.nearForeign Kernel.nearForeign 3 0 →
        (flowStealOne Kernel.nearForeign 3 0 (Pass.start World.nearForeign 8)).2 = 0
        ∧ movesOf (flowStealOne Kernel.nearForeign 3 0 (Pass.start World.nearForeign 8)).1.log
          = movesOf (Pass.start World.nearForeign 8).log
        ∧ (flowStealOne Kernel.nearForeign 3 0 (Pass.start World.nearForeign 8)).1.world
          = World.nearForeign) :=
  flowStealOne_moves_iff Kernel.nearForeign 3 0 (Pass.start World.nearForeign 8) (by decide)
    (by decide) rfl rfl fun _ _ => rfl

end Steal

end ScxFlow
