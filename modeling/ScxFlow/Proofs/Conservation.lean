import ScxFlow.Proofs.PassContract

/-!
# When a pass that moves nothing leaves nothing

The tiers share eight visits and every pass starts over at their heads.  A pass moves a task of its
tiers exactly when one of the first eight entries, over the three queues in order, may run on the CPU;
what lies behind eight foreign entries waits for as long as they do.
-/

namespace ScxFlow

variable {w : World} {k : Kernel} {cpu : ℕ}

/-- The walk of a tier that starts after `visits` visits. -/
def tierWalk (k : Kernel) (cpu dsq visits : ℕ) (l : List Entry) : Scan Entry :=
  Scan.walk (fun e => flowMoveCandidate k dsq cpu e.task) (flowDispatchMaxVisit - visits) l

theorem nrQueued_pos {dsq : ℕ} : 0 < nrQueued w dsq ↔ w.dsq dsq ≠ [] := by
  unfold nrQueued
  rw [← List.length_pos_iff]
  omega

section Tier

variable {s : Pass} {dsq : ℕ}

variable (dsq) in
theorem flowMoveOneHint_walk (hl : flowCpuLive s.world cpu = true)
    (hv : s.visits < flowDispatchMaxVisit) (hq : s.world.dsq dsq ≠ []) :
    flowMoveOneHint k dsq cpu (nrQueued s.world dsq) s
      = (s.walked dsq cpu (tierWalk k cpu dsq s.visits (s.world.dsq dsq)) true,
        if (tierWalk k cpu dsq s.visits (s.world.dsq dsq)).hit.isSome then 1 else 0) := by
  have hpos : 0 < nrQueued s.world dsq := nrQueued_pos.mpr hq
  unfold flowMoveOneHint
  rw [if_neg (by omega), if_neg (by simp [hl]), if_neg (by omega), if_neg (by omega)]
  rfl

variable (dsq) in
theorem flowDispatchTier_eq (hl : flowCpuLive s.world cpu = true) (hleft : s.left ≠ 0)
    (hv : s.visits < flowDispatchMaxVisit) (hq : s.world.dsq dsq ≠ []) :
    flowDispatchTier k dsq cpu (nrQueued s.world dsq) s
      = ({ s.walked dsq cpu (tierWalk k cpu dsq s.visits (s.world.dsq dsq)) true with
          left := s.left - if (tierWalk k cpu dsq s.visits (s.world.dsq dsq)).hit.isSome then 1
            else 0 },
        if (tierWalk k cpu dsq s.visits (s.world.dsq dsq)).hit.isSome then 1 else 0) := by
  have hpos : 0 < nrQueued s.world dsq := nrQueued_pos.mpr hq
  unfold flowDispatchTier
  rw [if_pos ⟨hleft, hv⟩, if_pos hpos, flowMoveOneHint_walk dsq hl hv hq]
  have hone : (if (tierWalk k cpu dsq s.visits (s.world.dsq dsq)).hit.isSome = true then 1 else 0)
      ≤ 1 := by
    split
    · exact le_refl 1
    · exact Nat.zero_le 1
  simp only [Pass.walked, clamp_left hone hleft]

theorem flowDispatchTier_skip (h : s.left = 0 ∨ flowDispatchMaxVisit ≤ s.visits
    ∨ s.world.dsq dsq = []) : flowDispatchTier k dsq cpu (nrQueued s.world dsq) s = (s, 0) := by
  unfold flowDispatchTier
  split
  · rename_i hsv
    rcases h with h | h | h
    · exact absurd h hsv.1
    · exact absurd hsv.2 (by omega)
    · rw [if_neg]
      simp [nrQueued, h]
  · rfl

theorem flowDispatchTier_idle (hl : flowCpuLive s.world cpu = true) (hleft : s.left ≠ 0)
    (hn : (tierWalk k cpu dsq s.visits (s.world.dsq dsq)).hit = none) :
    (flowDispatchTier k dsq cpu (nrQueued s.world dsq) s).2 = 0
      ∧ (flowDispatchTier k dsq cpu (nrQueued s.world dsq) s).1.world = s.world
      ∧ (flowDispatchTier k dsq cpu (nrQueued s.world dsq) s).1.left = s.left
      ∧ flowDispatchMaxVisit - (flowDispatchTier k dsq cpu (nrQueued s.world dsq) s).1.visits
        = flowDispatchMaxVisit - s.visits - (s.world.dsq dsq).length := by
  by_cases hskip : flowDispatchMaxVisit ≤ s.visits ∨ s.world.dsq dsq = []
  · rw [flowDispatchTier_skip (Or.inr hskip)]
    refine ⟨rfl, rfl, rfl, ?_⟩
    rcases hskip with h | h
    · simp only
      omega
    · simp [h]
  · rw [not_or] at hskip
    rw [flowDispatchTier_eq _ hl hleft (by omega) hskip.2]
    have hvis := Scan.visited_of_hit_none _ _ _ hn
    have hlen : (tierWalk k cpu dsq s.visits (s.world.dsq dsq)).visited.length
        = min (flowDispatchMaxVisit - s.visits) (s.world.dsq dsq).length := by
      rw [tierWalk, hvis, List.length_take]
    simp only [Pass.walked, hn, hlen, Option.isSome_none, Bool.false_eq_true, ↓reduceIte,
      Nat.sub_zero, true_and]
    omega

theorem flowDispatchTier_takes (hl : flowCpuLive s.world cpu = true) (hleft : s.left ≠ 0)
    (hn : (tierWalk k cpu dsq s.visits (s.world.dsq dsq)).hit ≠ none) :
    (flowDispatchTier k dsq cpu (nrQueued s.world dsq) s).2 = 1 := by
  have hv : s.visits < flowDispatchMaxVisit := by
    by_contra hv
    refine hn ?_
    rw [tierWalk, Nat.sub_eq_zero_of_le (by omega), Scan.walk_zero]
  have hq : s.world.dsq dsq ≠ [] := fun hq => hn (by rw [hq, tierWalk, Scan.walk_nil])
  rw [flowDispatchTier_eq _ hl hleft hv hq]
  simp only
  rw [if_pos (Option.isSome_iff_ne_none.mpr hn)]

end Tier

section ThreeTiers

/-- The tier moves of the general sequence. -/
def tierMoves (k : Kernel) (cpu : ℕ) (node : ℕ) (d : Depths) (s : Pass) : Pass :=
  flowDispatchMachine k cpu d (flowDispatchNodeTier k cpu node d (flowDispatchLocal k cpu d s))

/-- The entries of the three tiers, in the order a pass walks them. -/
def tierEntries (w : World) (cpu : ℕ) : List Entry :=
  w.dsq (flowLocalDsq cpu) ++ w.dsq (flowNodeDsq (flowDispatchNode w cpu)) ++ w.dsq flowMachineDsq

/-- The kernel takes every task the mask allows. -/
def MovesSucceed (k : Kernel) (cpu : ℕ) : Prop :=
  ∀ dsq p, (k.task p).cpusPtr cpu = true → k.dsqMove dsq p = true

theorem MovesSucceed.candidate (h : MovesSucceed k cpu) (dsq : ℕ) :
    (fun e : Entry => flowMoveCandidate k dsq cpu e.task) = fun e => (k.task e.task).cpusPtr cpu := by
  funext e
  rw [Bool.eq_iff_iff, flowMoveCandidate_iff]
  exact ⟨fun h' => h'.1, fun h' => ⟨h', h dsq e.task h'⟩⟩

/-- A pass that has moved nothing yet, with `b` visits to go. -/
structure Idle (w : World) (k : Kernel) (b : ℕ) (s : Pass) : Prop where
  world : s.world = w
  left : s.left = k.nrSlots
  moves : movesOf s.log = []
  budget : flowDispatchMaxVisit - s.visits = b

/-- The task walk of the tiers, past the mask alone. -/
def maskWalk (k : Kernel) (cpu b : ℕ) (l : List Entry) : Scan Entry :=
  Scan.walk (fun e => (k.task e.task).cpusPtr cpu) b l

/-- One more tier leaves an idle pass idle, or moves a task, as its walk says. -/
theorem Idle.tier {s : Pass} {b dsq : ℕ} (h : Idle w k b s) (hl : flowCpuLive w cpu = true)
    (hslots : k.nrSlots ≠ 0) (hm : MovesSucceed k cpu) (hd : dsq ≠ scxLocalOn cpu) :
    ((maskWalk k cpu b (w.dsq dsq)).hit = none →
        Idle w k (b - (w.dsq dsq).length) (flowDispatchTier k dsq cpu (nrQueued w dsq) s).1)
      ∧ ((maskWalk k cpu b (w.dsq dsq)).hit ≠ none →
        movesOf (flowDispatchTier k dsq cpu (nrQueued w dsq) s).1.log ≠ []) := by
  obtain ⟨rfl, hleft, hmoves, rfl⟩ := h
  have hleft' : s.left ≠ 0 := hleft ▸ hslots
  have hwalk : maskWalk k cpu (flowDispatchMaxVisit - s.visits) (s.world.dsq dsq)
      = tierWalk k cpu dsq s.visits (s.world.dsq dsq) := by
    rw [maskWalk, tierWalk, hm.candidate]
  obtain ⟨new, hs, hn, -⟩ := flowDispatchTier_stage (k := k) (s := s) hd (nrQueued s.world dsq)
  rw [hwalk]
  constructor
  · intro hnone
    obtain ⟨h0, hw, hf, hb⟩ := flowDispatchTier_idle hl hleft' hnone
    refine ⟨hw, hf.trans hleft, ?_, hb⟩
    rw [h0] at hn
    rw [hs.log, movesOf_append, hmoves, List.nil_append]
    exact List.length_eq_zero_iff.mp hn
  · intro hsome hnil
    rw [flowDispatchTier_takes hl hleft' hsome] at hn
    rw [hs.log, movesOf_append, List.append_eq_nil_iff] at hnil
    rw [hnil.2] at hn
    simp at hn

theorem Idle.of_eq {s t : Pass} {b : ℕ} (h : Idle w k b s) (hw : t.world = s.world)
    (hf : t.left = s.left) (hlog : t.log = s.log) (hv : t.visits = s.visits) : Idle w k b t :=
  ⟨hw.trans h.world, hf.trans h.left, hlog ▸ h.moves, hv ▸ h.budget⟩

theorem Idle.start (w : World) (k : Kernel) :
    Idle w k flowDispatchMaxVisit (Pass.start w k.nrSlots) :=
  ⟨rfl, rfl, rfl, rfl⟩

theorem maskWalk_append (k : Kernel) (cpu : ℕ) (L N M : List Entry) :
    (maskWalk k cpu flowDispatchMaxVisit (L ++ N ++ M)).hit = none ↔
      (maskWalk k cpu flowDispatchMaxVisit L).hit = none
        ∧ (maskWalk k cpu (flowDispatchMaxVisit - L.length) N).hit = none
        ∧ (maskWalk k cpu (flowDispatchMaxVisit - L.length - N.length) M).hit = none := by
  unfold maskWalk
  rw [Scan.hit_append_eq_none_iff, Scan.hit_append_eq_none_iff, List.length_append,
    Nat.sub_sub, and_assoc]

theorem moves_ne_nil_of_stage {s s' : Pass} {dsq : ℕ} {new : List Visit}
    (hs : Stage k cpu dsq s s' new) (h : movesOf s.log ≠ []) : movesOf s'.log ≠ [] := by
  rw [hs.log, movesOf_append]
  exact List.append_ne_nil_of_left_ne_nil h _

/-- From the start the tiers stay idle while the mask walk of their entries takes nothing. -/
theorem tierMoves_idle (hl : flowCpuLive w cpu = true) (hslots : k.nrSlots ≠ 0)
    (hm : MovesSucceed k cpu) :
    ((maskWalk k cpu flowDispatchMaxVisit (tierEntries w cpu)).hit = none →
      Idle w k (flowDispatchMaxVisit - (tierEntries w cpu).length)
        (tierMoves k cpu (flowDispatchNode w cpu) (flowDispatchDepths w cpu)
          (Pass.start w k.nrSlots)))
    ∧ ((maskWalk k cpu flowDispatchMaxVisit (tierEntries w cpu)).hit ≠ none →
      movesOf (tierMoves k cpu (flowDispatchNode w cpu) (flowDispatchDepths w cpu)
        (Pass.start w k.nrSlots)).log ≠ []) := by
  have hc := (flowCpuLive_iff.mp hl).2
  have hn := flowDispatchNode_lt w cpu
  have hkinds := dsq_kinds hc hn
  have h0 := Idle.start w k
  unfold tierEntries tierMoves
  rw [maskWalk_append]
  generalize Pass.start w k.nrSlots = s0 at *
  have hlocal : flowLocalDsq cpu ≠ scxLocalOn cpu := scxLocalOn_ne (by omega)
  have hnode : flowNodeDsq (flowDispatchNode w cpu) ≠ scxLocalOn cpu := scxLocalOn_ne (by omega)
  have hmachine : flowMachineDsq ≠ scxLocalOn cpu := scxLocalOn_ne (by omega)
  have hL := h0.tier hl hslots hm hlocal
  obtain ⟨n2, hs2, -⟩ := flowDispatchNodeTier_stage (k := k) cpu
    (s := flowDispatchLocal k cpu (flowDispatchDepths w cpu) s0) hn (flowDispatchDepths w cpu)
  obtain ⟨n3, hs3, -⟩ := flowDispatchMachine_stage (k := k) cpu
    (s := flowDispatchNodeTier k cpu (flowDispatchNode w cpu) (flowDispatchDepths w cpu)
      (flowDispatchLocal k cpu (flowDispatchDepths w cpu) s0)) (flowDispatchDepths w cpu)
  by_cases hl1 : (maskWalk k cpu flowDispatchMaxVisit (w.dsq (flowLocalDsq cpu))).hit = none
  swap
  · exact ⟨fun h => absurd h.1 hl1, fun _ => moves_ne_nil_of_stage hs3
      (moves_ne_nil_of_stage hs2 (hL.2 hl1))⟩
  have h1 : Idle w k _ (flowDispatchLocal k cpu (flowDispatchDepths w cpu) s0) :=
    (hL.1 hl1).of_eq rfl rfl rfl rfl
  generalize flowDispatchLocal k cpu (flowDispatchDepths w cpu) s0 = s1 at *
  have hN := h1.tier hl hslots hm hnode
  by_cases hl2 : (maskWalk k cpu (flowDispatchMaxVisit - (w.dsq (flowLocalDsq cpu)).length)
      (w.dsq (flowNodeDsq (flowDispatchNode w cpu)))).hit = none
  swap
  · exact ⟨fun h => absurd h.2.1 hl2, fun _ => moves_ne_nil_of_stage hs3 (hN.2 hl2)⟩
  have h2 : Idle w k _ (flowDispatchNodeTier k cpu (flowDispatchNode w cpu)
      (flowDispatchDepths w cpu) s1) := (hN.1 hl2).of_eq rfl rfl rfl rfl
  generalize flowDispatchNodeTier k cpu (flowDispatchNode w cpu) (flowDispatchDepths w cpu) s1 = s2
    at *
  have hM := h2.tier hl hslots hm hmachine
  refine ⟨fun h => ?_, fun h => ?_⟩
  · have h3 : Idle w k _ (flowDispatchMachine k cpu (flowDispatchDepths w cpu) s2) :=
      (hM.1 h.2.2).of_eq rfl rfl rfl rfl
    rw [List.length_append, List.length_append, ← Nat.sub_sub, ← Nat.sub_sub]
    exact h3
  · exact hM.2 fun h3 => h ((maskWalk_append k cpu _ _ _).mpr ⟨hl1, hl2, h3⟩)

end ThreeTiers

section WholePass

theorem flowDispatchTier_of_nonpos {dsq : ℕ} {queued : ℤ} (s : Pass) (hq : queued ≤ 0) :
    flowDispatchTier k dsq cpu queued s = (s, 0) := by
  unfold flowDispatchTier
  split
  · rw [if_neg (by omega)]
  · rfl

theorem tierMoves_eq_local (node : ℕ) {d : Depths} (hc : cpu < flowMaxCpus) (hn : d.nq0 ≤ 0)
    (hm : d.mq0 ≤ 0) :
    tierMoves k cpu node d (Pass.start w k.nrSlots)
      = flowDispatchLocal k cpu d (Pass.start w k.nrSlots) := by
  obtain ⟨new, -, htally⟩ := flowDispatchLocal_stage (k := k) (s := Pass.start w k.nrSlots) hc d
  simp only [Pass.tally, Prod.mk.injEq, Pass.start] at htally
  unfold tierMoves flowDispatchMachine flowDispatchNodeTier
  rw [flowDispatchTier_of_nonpos _ hn]
  simp only
  rw [flowDispatchTier_of_nonpos _ hm]
  simp only [Pass.start]
  generalize flowDispatchLocal k cpu d ⟨w, 0, [], k.nrSlots, 0, 0, 0, 0⟩ = t at *
  obtain ⟨world, visits, log, left, lm, nm, mm, rm⟩ := t
  obtain ⟨-, rfl, rfl, -⟩ := htally
  rfl

theorem flowDispatchMoves_cases (node : ℕ) (d : Depths) (hc : cpu < flowMaxCpus) (fast : Bool) :
    flowDispatchMoves k cpu node d fast (Pass.start w k.nrSlots)
        = tierMoves k cpu node d (Pass.start w k.nrSlots)
      ∨ flowDispatchMoves k cpu node d fast (Pass.start w k.nrSlots)
        = flowDispatchSteal k cpu d (flowDispatchReclaim k cpu d
          (tierMoves k cpu node d (Pass.start w k.nrSlots))) := by
  unfold flowDispatchMoves
  simp only
  split
  · rename_i h
    simp only [Bool.and_eq_true, decide_eq_true_eq] at h
    exact Or.inl (tierMoves_eq_local node hc h.1.2.2.1 h.1.2.2.2).symm
  · exact Or.inr rfl

theorem flowDispatchReclaim_of_spent {d : Depths} {s : Pass}
    (h : s.left = 0 ∨ flowDispatchMaxVisit ≤ s.visits) : flowDispatchReclaim k cpu d s = s := by
  unfold flowDispatchReclaim
  rw [if_neg]
  rintro ⟨hleft, hv⟩
  rcases h with h | h
  · exact hleft h
  · omega

theorem flowDispatchSteal_of_spent {d : Depths} {s : Pass}
    (h : s.left = 0 ∨ flowDispatchMaxVisit ≤ s.visits) : flowDispatchSteal k cpu d s = s := by
  unfold flowDispatchSteal
  rw [if_neg]
  rintro ⟨hleft, hv⟩
  rcases h with h | h
  · exact hleft h
  · omega

theorem flowDispatchPass_log (hl : flowCpuLive w cpu = true) (hslots : k.nrSlots ≠ 0)
    (fast : Bool) : (flowDispatchPass w k cpu fast).log
      = (flowDispatchMoves k cpu (flowDispatchNode w cpu) (flowDispatchDepths w cpu) fast
        (Pass.start w k.nrSlots)).log := by
  unfold flowDispatchPass
  rw [if_neg (by omega)]
  simp only [Int.toNat_natCast, hl, Bool.not_true, Bool.false_eq_true, ↓reduceIte, if_neg hslots]

/-- The end of a pass writes counters and levels only. -/
theorem flowDispatch_world (hl : flowCpuLive w cpu = true) (hslots : k.nrSlots ≠ 0) :
    ∃ stats levels, flowDispatch w k cpu
      = { (flowDispatchMoves k cpu (flowDispatchNode w cpu) (flowDispatchDepths w cpu) true
          (Pass.start w k.nrSlots)).world with cpuStats := stats, perfLast := levels } := by
  unfold flowDispatch flowDispatchPass
  rw [if_neg (by omega)]
  simp only [Int.toNat_natCast, hl, Bool.not_true, Bool.false_eq_true, ↓reduceIte, if_neg hslots]
  rw [flowPerfUpdateHint_eq, flowDispatchAccount_eq]
  exact ⟨_, _, rfl⟩

theorem flowDispatchPass_moves (hl : flowCpuLive w cpu = true) (hslots : k.nrSlots ≠ 0)
    {s : Pass} (hs : s = tierMoves k cpu (flowDispatchNode w cpu) (flowDispatchDepths w cpu)
      (Pass.start w k.nrSlots)) :
    (movesOf (flowDispatchPass w k cpu true).log = [] → movesOf s.log = [])
      ∧ (flowDispatchMaxVisit ≤ s.visits → (flowDispatchPass w k cpu true).log = s.log) := by
  rw [flowDispatchPass_log hl hslots]
  rcases flowDispatchMoves_cases (k := k) (w := w) (flowDispatchNode w cpu)
    (flowDispatchDepths w cpu) (flowCpuLive_iff.mp hl).2 true with h | h
  · rw [h, ← hs]
    exact ⟨fun h => h, fun _ => rfl⟩
  · rw [h, ← hs]
    obtain ⟨n4, hs4, -⟩ := flowDispatchReclaim_stage (k := k) cpu (s := s)
      (flowDispatchDepths w cpu)
    obtain ⟨peer, n5, -, -, hs5, -⟩ := flowDispatchSteal_stage (k := k) cpu
      (s := flowDispatchReclaim k cpu (flowDispatchDepths w cpu) s) (flowDispatchDepths w cpu)
    refine ⟨fun hnil => ?_, fun hv => ?_⟩
    · by_contra hne
      exact moves_ne_nil_of_stage hs5 (moves_ne_nil_of_stage hs4 hne) hnil
    · rw [flowDispatchReclaim_of_spent (Or.inr hv), flowDispatchSteal_of_spent (Or.inr hv)]

/-- A pass that moves nothing leaves no runnable entry in its tiers, exactly when the tiers hold
none or one of their first eight entries is one. -/
theorem flowDispatch_conserves_iff (w : World) (k : Kernel) (cpu : ℕ)
    (hl : flowCpuLive w cpu = true) (hslots : k.nrSlots ≠ 0) (hm : MovesSucceed k cpu) :
    (movesOf (flowDispatchPass w k cpu true).log = [] →
        ∀ e ∈ tierEntries w cpu, (k.task e.task).cpusPtr cpu = false)
      ↔ ((∃ e ∈ tierEntries w cpu, (k.task e.task).cpusPtr cpu = true) →
        ∃ e ∈ (tierEntries w cpu).take flowDispatchMaxVisit,
          (k.task e.task).cpusPtr cpu = true) := by
  obtain ⟨hidle, hbusy⟩ := tierMoves_idle hl hslots hm
  obtain ⟨hnil, hspent⟩ := flowDispatchPass_moves hl hslots rfl
  have hfirst : (maskWalk k cpu flowDispatchMaxVisit (tierEntries w cpu)).hit = none
      ↔ ∀ e ∈ (tierEntries w cpu).take flowDispatchMaxVisit, (k.task e.task).cpusPtr cpu = false :=
    Scan.hit_eq_none_iff ..
  constructor
  · rintro h ⟨e, he, hmask⟩
    by_contra hnone
    have hwalk := hfirst.mpr fun x hx => by
      rw [← Bool.not_eq_true]
      exact fun hx' => hnone ⟨x, hx, hx'⟩
    -- the runnable entry lies behind the first eight, which take all the visits
    have hlong : flowDispatchMaxVisit ≤ (tierEntries w cpu).length := by
      by_contra hshort
      rw [List.take_of_length_le (by omega)] at hnone
      exact hnone ⟨e, he, hmask⟩
    have hi := hidle hwalk
    have hb := hi.budget
    have hlog := hspent (by omega)
    rw [hlog] at h
    have hfalse := h hi.moves e he
    rw [hmask] at hfalse
    exact Bool.noConfusion hfalse
  · intro h hmoves e he
    rw [← Bool.not_eq_true]
    intro hmask
    obtain ⟨x, hx, hxm⟩ := h ⟨e, he, hmask⟩
    refine hbusy (fun hwalk => ?_) (hnil hmoves)
    rw [hfirst.mp hwalk x hx] at hxm
    exact Bool.noConfusion hxm

/-- Eight tasks bound to CPU 1 head the local queue of CPU 0, and one that may run there follows. -/
def World.foreignHeads : World :=
  (World.boot 2 1 fun _ => 0).setDsq (flowLocalDsq 0)
    [⟨1, 1⟩, ⟨2, 2⟩, ⟨3, 3⟩, ⟨4, 4⟩, ⟨5, 5⟩, ⟨6, 6⟩, ⟨7, 7⟩, ⟨8, 8⟩, ⟨0, 9⟩]

/-- A view in which task 0 may run anywhere and every other task on CPU 1 only. -/
def Kernel.bound : Kernel :=
  { Kernel.plain 1000 with
    task := fun p => { TaskStruct.plain p with cpusPtr := fun cpu => decide (p = 0 ∨ cpu = 1) } }

/-- The pass spends its visits on foreign heads and leaves a runnable task behind them. -/
theorem flowDispatch_leaves_runnable :
    flowCpuLive World.foreignHeads 0 = true ∧ Kernel.bound.nrSlots ≠ 0 ∧ MovesSucceed Kernel.bound 0
      ∧ movesOf (flowDispatchPass World.foreignHeads Kernel.bound (0 : ℕ) true).log = []
      ∧ ⟨0, 9⟩ ∈ tierEntries World.foreignHeads 0 ∧ (Kernel.bound.task 0).cpusPtr 0 = true :=
  ⟨by decide, by decide, fun _ _ _ => rfl, by decide, by decide, by decide⟩

theorem flowDispatch_conserves_queued : flowCpuLive World.queued 0 = true
    ∧ (Kernel.plain 1000).nrSlots ≠ 0 ∧ MovesSucceed (Kernel.plain 1000) 0
    ∧ ((movesOf (flowDispatchPass World.queued (Kernel.plain 1000) (0 : ℕ) true).log = [] →
        ∀ e ∈ tierEntries World.queued 0, ((Kernel.plain 1000).task e.task).cpusPtr 0 = false)
      ↔ ((∃ e ∈ tierEntries World.queued 0, ((Kernel.plain 1000).task e.task).cpusPtr 0 = true) →
        ∃ e ∈ (tierEntries World.queued 0).take flowDispatchMaxVisit,
          ((Kernel.plain 1000).task e.task).cpusPtr 0 = true)) :=
  ⟨by decide, by decide, fun _ _ _ => rfl,
    flowDispatch_conserves_iff World.queued (Kernel.plain 1000) 0 (by decide) (by decide)
      fun _ _ _ => rfl⟩

end WholePass

end ScxFlow
