import ScxFlow.Proofs.Stages
import ScxFlow.System
import ScxFlow.Proofs.Words

/-!
# The contract of a dispatch pass

The stages of a pass walk queues that differ, so the log of a whole pass splits into one walk for
each queue, and the visits, the slots, the order and the counts follow from that.
-/

namespace ScxFlow

variable {w : World} {k : Kernel} {cpu : ℕ}

section Walks

/-- The visits of one queue. -/
def visitsOf (dsq : ℕ) (l : List Visit) : List Visit := l.filter fun v => decide (v.dsq = dsq)

@[simp] theorem visitsOf_append (dsq : ℕ) (l l' : List Visit) :
    visitsOf dsq (l ++ l') = visitsOf dsq l ++ visitsOf dsq l' := List.filter_append ..

theorem visitsOf_eq_self {dsq : ℕ} {l : List Visit} (h : ∀ v ∈ l, v.dsq = dsq) :
    visitsOf dsq l = l :=
  List.filter_eq_self.mpr fun v hv => by simpa using h v hv

theorem visitsOf_eq_nil {dsq : ℕ} {l : List Visit} (h : ∀ v ∈ l, v.dsq ≠ dsq) :
    visitsOf dsq l = [] :=
  List.filter_eq_nil_iff.mpr fun v hv => by simpa using h v hv

theorem Walked.dsq_eq {dsq : ℕ} {before after : List Entry} {new : List Visit}
    (h : Walked k cpu dsq before after new) : ∀ v ∈ new, v.dsq = dsq := by
  cases h with
  | kept l rest hq ha =>
    intro v hv
    obtain ⟨e, -, rfl⟩ := mem_refused.mp hv
    rfl
  | moved pre e post hq ha hok hpre =>
    intro v hv
    rcases List.mem_append.mp hv with hv | hv
    · obtain ⟨e', -, rfl⟩ := mem_refused.mp hv
      rfl
    · rw [List.mem_singleton.mp hv]

theorem Walked.eq_of_nil {dsq : ℕ} {before after : List Entry}
    (h : Walked k cpu dsq before after []) : after = before := by
  generalize hn : ([] : List Visit) = new at h
  cases h with
  | kept l rest hq ha => exact ha
  | moved pre e post hq ha hok hpre => simp at hn

/-- A pass so far, over the queues `Q`. -/
structure PassOk (w : World) (k : Kernel) (cpu : ℕ) (Q : List ℕ) (s : Pass) : Prop where
  count : s.visits = s.log.length
  cap : s.visits ≤ flowDispatchMaxVisit
  slots : s.left + (movesOf s.log).length = k.nrSlots
  within : ∀ v ∈ s.log, v.dsq ∈ Q ∧ v.dsq ≠ scxLocalOn cpu
  keeps : Keeps w s.world
  queue : ∀ d, d ≠ scxLocalOn cpu → Walked k cpu d (w.dsq d) (s.world.dsq d) (visitsOf d s.log)
  terminal : s.world.dsq (scxLocalOn cpu) = w.dsq (scxLocalOn cpu) ++ arrivals s.log

theorem PassOk.start (w : World) (k : Kernel) (cpu : ℕ) :
    PassOk w k cpu [] (Pass.start w k.nrSlots) where
  count := rfl
  cap := Nat.zero_le _
  slots := rfl
  within := by simp [Pass.start]
  keeps := .refl w
  queue d _ := .nil k cpu d _
  terminal := by simp [Pass.start, arrivals, movesOf]

theorem PassOk.stage {Q : List ℕ} {s s' : Pass} {dsq : ℕ} {new : List Visit}
    (h : PassOk w k cpu Q s) (hs : Stage k cpu dsq s s' new) (hd : dsq ∉ Q)
    (hlt : dsq < scxDsqLocalOn) : PassOk w k cpu (dsq :: Q) s' where
  count := by
    rw [hs.visits, hs.log, h.count, List.length_append]
  cap := hs.cap h.cap
  slots := by
    have hl := hs.left
    have hslots := h.slots
    rw [hs.log, movesOf_append, List.length_append]
    omega
  within := by
    intro v hv
    rw [hs.log] at hv
    rcases List.mem_append.mp hv with hv | hv
    · exact ⟨List.mem_cons_of_mem _ (h.within v hv).1, (h.within v hv).2⟩
    · rw [hs.queue.dsq_eq v hv]
      exact ⟨List.mem_cons_self, scxLocalOn_ne hlt⟩
  keeps := h.keeps.trans hs.keeps
  queue := by
    intro d ht
    rw [hs.log, visitsOf_append]
    by_cases he : d = dsq
    · subst he
      have hnil : visitsOf d s.log = [] := visitsOf_eq_nil fun v hv hvd =>
        hd (hvd ▸ (h.within v hv).1)
      have hq := h.queue d ht
      rw [hnil] at hq ⊢
      rw [visitsOf_eq_self hs.queue.dsq_eq, List.nil_append, ← hq.eq_of_nil]
      exact hs.queue
    · have hnil : visitsOf d new = [] := visitsOf_eq_nil fun v hv hvd =>
        he (hvd.symm.trans (hs.queue.dsq_eq v hv))
      rw [hnil, List.append_nil, hs.others d he ht]
      exact h.queue d ht
  terminal := by
    rw [hs.terminal, h.terminal, hs.log, arrivals_append, List.append_assoc]

end Walks

section MoveCounts

/-- The moves off the reject queue. -/
def reclaimsOf (l : List Visit) : List Visit := visitsOf flowOverflowDsq (movesOf l)

@[simp] theorem reclaimsOf_append (l l' : List Visit) :
    reclaimsOf (l ++ l') = reclaimsOf l ++ reclaimsOf l' := by
  simp [reclaimsOf]

/-- The counts of a pass: the three tiers share the moves, the reclaims are counted apart. -/
structure Tallied (s : Pass) : Prop where
  moves : s.localMoved + s.nodeMoved + s.machineMoved = (movesOf s.log).length
  reclaims : s.reclaimMoved = (reclaimsOf s.log).length

theorem Stage.moves_length {dsq : ℕ} {s s' : Pass} {new : List Visit}
    (hs : Stage k cpu dsq s s' new) :
    (movesOf s'.log).length = (movesOf s.log).length + (movesOf new).length := by
  rw [hs.log, movesOf_append, List.length_append]

theorem Stage.reclaims_length {dsq : ℕ} {s s' : Pass} {new : List Visit}
    (hs : Stage k cpu dsq s s' new) :
    (reclaimsOf s'.log).length = (reclaimsOf s.log).length
      + if dsq = flowOverflowDsq then (movesOf new).length else 0 := by
  rw [hs.log, reclaimsOf_append, List.length_append]
  congr 1
  have hall : ∀ v ∈ movesOf new, v.dsq = dsq := fun v hv =>
    hs.queue.dsq_eq v (mem_movesOf.mp hv).1
  split
  · rename_i he
    rw [reclaimsOf, visitsOf_eq_self fun v hv => (hall v hv).trans he]
  · rename_i he
    rw [reclaimsOf, visitsOf_eq_nil fun v hv h => he ((hall v hv).symm.trans h), List.length_nil]

end MoveCounts

section InOrder

theorem flowLocalDsq_inj {a b : ℕ} (h : flowLocalDsq a = flowLocalDsq b) : a = b := by
  simpa [flowLocalDsq] using h

theorem flowDispatchGeneral_ok {node : ℕ} (hc : cpu < flowMaxCpus) (hn : node < flowMaxNodes)
    (d : Depths) :
    ∃ Q, PassOk w k cpu Q (flowDispatchGeneral k cpu node d (Pass.start w k.nrSlots))
      ∧ Tallied (flowDispatchGeneral k cpu node d (Pass.start w k.nrSlots)) := by
  have h0 := PassOk.start w k cpu
  have hkinds := dsq_kinds hc hn
  unfold flowDispatchGeneral
  generalize hp0 : Pass.start w k.nrSlots = s0 at *
  obtain ⟨n1, hs1, ht1⟩ := flowDispatchLocal_stage (k := k) (s := s0) hc d
  obtain ⟨n2, hs2, ht2⟩ := flowDispatchNodeTier_stage (k := k) cpu
    (s := flowDispatchLocal k cpu d s0) hn d
  generalize flowDispatchLocal k cpu d s0 = s1 at *
  obtain ⟨n3, hs3, ht3⟩ := flowDispatchMachine_stage (k := k) cpu
    (s := flowDispatchNodeTier k cpu node d s1) d
  generalize flowDispatchNodeTier k cpu node d s1 = s2 at *
  obtain ⟨n4, hs4, ht4⟩ := flowDispatchReclaim_stage (k := k) cpu
    (s := flowDispatchMachine k cpu d s2) d
  generalize flowDispatchMachine k cpu d s2 = s3 at *
  obtain ⟨peer, n5, hne, hlt, hs5, ht5⟩ := flowDispatchSteal_stage (k := k) cpu
    (s := flowDispatchReclaim k cpu d s3) d
  generalize flowDispatchReclaim k cpu d s3 = s4 at *
  generalize flowDispatchSteal k cpu d s4 = s5 at *
  have hpk := dsq_kinds hlt hn
  have hpeer : flowLocalDsq peer ≠ flowLocalDsq cpu := fun h => hne (flowLocalDsq_inj h)
  have h1 := h0.stage hs1 (by simp) (by omega)
  have h2 := h1.stage hs2 (by simp; omega) (by omega)
  have h3 := h2.stage hs3 (by simp; omega) (by omega)
  have h4 := h3.stage hs4 (by simp; omega) (by omega)
  have h5 := h4.stage hs5 (by simp only [List.mem_cons, List.not_mem_nil, or_false]; omega)
    (by omega)
  refine ⟨_, h5, ?_, ?_⟩
  · have hstart : (movesOf s0.log).length = 0 := by rw [← hp0]; rfl
    simp only [Pass.tally, Prod.mk.injEq] at ht1 ht2 ht3 ht4 ht5
    rw [hs5.moves_length, hs4.moves_length, hs3.moves_length, hs2.moves_length, hs1.moves_length]
    omega
  · have hstart : (reclaimsOf s0.log).length = 0 ∧ s0.reclaimMoved = 0 := by
      rw [← hp0]
      exact ⟨rfl, rfl⟩
    simp only [Pass.tally, Prod.mk.injEq] at ht1 ht2 ht3 ht4 ht5
    rw [hs5.reclaims_length, hs4.reclaims_length, hs3.reclaims_length, hs2.reclaims_length,
      hs1.reclaims_length, if_neg (by omega), if_pos rfl, if_neg (by omega), if_neg (by omega),
      if_neg (by omega)]
    omega

theorem flowDispatchMoves_ok {node : ℕ} (hc : cpu < flowMaxCpus) (hn : node < flowMaxNodes)
    (d : Depths) (fast : Bool) :
    ∃ Q, PassOk w k cpu Q (flowDispatchMoves k cpu node d fast (Pass.start w k.nrSlots))
      ∧ Tallied (flowDispatchMoves k cpu node d fast (Pass.start w k.nrSlots)) := by
  unfold flowDispatchMoves
  simp only
  split
  · obtain ⟨n1, hs1, ht1⟩ := flowDispatchLocal_stage (k := k) (s := Pass.start w k.nrSlots) hc d
    have hkinds := dsq_kinds hc hn
    refine ⟨_, (PassOk.start w k cpu).stage hs1 (by simp) (by omega), ?_, ?_⟩
    · simp only [Pass.tally, Prod.mk.injEq] at ht1
      rw [hs1.moves_length, ht1.1, ht1.2.1, ht1.2.2.1]
      simp [Pass.start, movesOf]
    · simp only [Pass.tally, Prod.mk.injEq] at ht1
      rw [hs1.reclaims_length, ht1.2.2.2, if_neg (by omega)]
      rfl
  · exact flowDispatchGeneral_ok hc hn d

end InOrder

section PassEnd

theorem flowAccount_eq (w : World) (k : Kernel) (c : Counter) (n : ℕ) :
    flowAccount w k c n = { w with cpuStats := (flowAccount w k c n).cpuStats } := by
  unfold flowAccount
  split
  · rfl
  · exact flowCount_eq w k c _

theorem flowAccount_same {c : Counter} (hl : statsLive w k)
    (hs : w.cpuStats k.smpCpu c ≠ u64Max) (n : ℕ) :
    (flowAccount w k c n).cpuStats k.smpCpu c = w.cpuStats k.smpCpu c + UInt64.ofNat n := by
  obtain ⟨hn, hm⟩ := hl
  unfold flowAccount
  split
  · rename_i h
    simp [h]
  · unfold flowCount
    rw [if_neg (by omega), if_neg (by omega), if_neg hs]
    simp

theorem flowAccount_other {c c' : Counter} (hc : c' ≠ c) (n : ℕ) (r : ℕ) :
    (flowAccount w k c n).cpuStats r c' = w.cpuStats r c' := by
  unfold flowAccount
  split
  · rfl
  · exact perform_stats w k 0 (e := .count c (UInt64.ofNat n)) (by simp [Effect.counts, hc.symm]) r

theorem flowDispatchAccount_eq (k : Kernel) (s : Pass) :
    flowDispatchAccount k s = { s.world with cpuStats := (flowDispatchAccount k s).cpuStats } := by
  unfold flowDispatchAccount
  simp only
  rw [flowAccount_eq, flowAccount_eq _ _ .machineMoves, flowAccount_eq _ _ .nodeMoves,
    flowAccount_eq s.world]

theorem flowDispatchAccount_other (k : Kernel) (s : Pass) {c : Counter}
    (hc : c ∉ [Counter.localMoves, .nodeMoves, .machineMoves, .redReclaims]) (r : ℕ) :
    (flowDispatchAccount k s).cpuStats r c = s.world.cpuStats r c := by
  simp only [List.mem_cons, List.not_mem_nil, or_false, not_or] at hc
  unfold flowDispatchAccount
  simp only
  rw [flowAccount_other hc.2.2.2, flowAccount_other hc.2.2.1, flowAccount_other hc.2.1,
    flowAccount_other hc.1]

/-- The four counts of a pass on a live row below the clamp. -/
def MovesCounted (w w' : World) (k : Kernel) (s : Pass) : Prop :=
  w'.cpuStats k.smpCpu .localMoves
      = w.cpuStats k.smpCpu .localMoves + UInt64.ofNat s.localMoved
    ∧ w'.cpuStats k.smpCpu .nodeMoves = w.cpuStats k.smpCpu .nodeMoves + UInt64.ofNat s.nodeMoved
    ∧ w'.cpuStats k.smpCpu .machineMoves
      = w.cpuStats k.smpCpu .machineMoves + UInt64.ofNat s.machineMoved
    ∧ w'.cpuStats k.smpCpu .redReclaims
      = w.cpuStats k.smpCpu .redReclaims + UInt64.ofNat s.reclaimMoved

theorem statsLive_flowAccount {c : Counter} {n : ℕ} :
    statsLive (flowAccount w k c n) k ↔ statsLive w k := by
  rw [flowAccount_eq]
  rfl

theorem flowDispatchAccount_counted {s : Pass} (hl : statsLive s.world k)
    (hs : ∀ c ∈ [Counter.localMoves, .nodeMoves, .machineMoves, .redReclaims],
      s.world.cpuStats k.smpCpu c ≠ u64Max) :
    MovesCounted s.world (flowDispatchAccount k s) k s := by
  unfold MovesCounted flowDispatchAccount
  simp only
  refine ⟨?_, ?_, ?_, ?_⟩
  · rw [flowAccount_other (by decide), flowAccount_other (by decide),
      flowAccount_other (by decide)]
    exact flowAccount_same hl (hs _ (by simp)) _
  · rw [flowAccount_other (by decide), flowAccount_other (by decide), flowAccount_same,
      flowAccount_other (by decide)]
    · exact statsLive_flowAccount.mpr hl
    · rw [flowAccount_other (by decide)]
      exact hs _ (by simp)
  · rw [flowAccount_other (by decide), flowAccount_same, flowAccount_other (by decide),
      flowAccount_other (by decide)]
    · exact statsLive_flowAccount.mpr (statsLive_flowAccount.mpr hl)
    · rw [flowAccount_other (by decide), flowAccount_other (by decide)]
      exact hs _ (by simp)
  · rw [flowAccount_same, flowAccount_other (by decide), flowAccount_other (by decide),
      flowAccount_other (by decide)]
    · exact statsLive_flowAccount.mpr (statsLive_flowAccount.mpr (statsLive_flowAccount.mpr hl))
    · rw [flowAccount_other (by decide), flowAccount_other (by decide),
        flowAccount_other (by decide)]
      exact hs _ (by simp)

theorem flowPerfUpdateHint_eq (w : World) (k : Kernel) (cpu localQ localOnQ nodeQ : ℤ) :
    flowPerfUpdateHint w k cpu localQ localOnQ nodeQ
      = { w with perfLast := (flowPerfUpdateHint w k cpu localQ localOnQ nodeQ).perfLast } := by
  have hset : ∀ want, flowPerfSet w k cpu want
      = { w with perfLast := (flowPerfSet w k cpu want).perfLast } := by
    intro want
    unfold flowPerfSet
    simp only
    repeat' split
    all_goals rfl
  unfold flowPerfUpdateHint
  split
  · exact hset _
  · exact hset _

/-- What the end of a pass adds to its moves: counts and a performance level. -/
structure Accounted (k : Kernel) (s : Pass) (w : World) : Prop where
  dsq : w.dsq = s.world.dsq
  cpuStats : w.cpuStats = (flowDispatchAccount k s).cpuStats
  nrCpuIds : w.nrCpuIds = s.world.nrCpuIds
  taskCtx : w.taskCtx = s.world.taskCtx
  hintStor : w.hintStor = s.world.hintStor
  cpuState : w.cpuState = s.world.cpuState
  reclaimCredit : w.reclaimCredit = s.world.reclaimCredit

theorem flowPerfUpdateHint_accounted (k : Kernel) (s : Pass) (cpu localQ localOnQ nodeQ : ℤ) :
    Accounted k s (flowPerfUpdateHint (flowDispatchAccount k s) k cpu localQ localOnQ nodeQ) := by
  rw [flowPerfUpdateHint_eq, flowDispatchAccount_eq]
  exact ⟨rfl, rfl, rfl, rfl, rfl, rfl, rfl⟩

/-- The moves of a pass, with what it ends in. -/
theorem flowDispatchPass_live (hl : flowCpuLive w cpu = true) (fast : Bool) :
    ∃ s : Pass, (∃ Q, PassOk w k cpu Q s) ∧ Tallied s
      ∧ (flowDispatchPass w k cpu fast).log = s.log
      ∧ (flowDispatchPass w k cpu fast).visits = s.visits
      ∧ (flowDispatchPass w k cpu fast).left = s.left
      ∧ (flowDispatchPass w k cpu fast).tally = s.tally
      ∧ Accounted k s (flowDispatchPass w k cpu fast).world := by
  unfold flowDispatchPass
  rw [if_neg (by omega)]
  simp only [Int.toNat_natCast, hl, Bool.not_true, Bool.false_eq_true, ↓reduceIte]
  split
  · refine ⟨Pass.start w k.nrSlots, ⟨_, PassOk.start w k cpu⟩, ⟨rfl, rfl⟩, rfl, rfl, rfl, rfl, ?_⟩
    exact flowPerfUpdateHint_accounted k (Pass.start w k.nrSlots) _ _ _ _
  · obtain ⟨Q, hok, ht⟩ := flowDispatchMoves_ok (w := w) (k := k) (flowCpuLive_iff.mp hl).2
      (flowDispatchNode_lt w cpu) (flowDispatchDepths w cpu) fast
    exact ⟨_, ⟨Q, hok⟩, ht, rfl, rfl, rfl, rfl, flowPerfUpdateHint_accounted k _ _ _ _ _⟩

end PassEnd

section Contract

/-- The order the kernel iterates a queue in. -/
def KeySorted (l : List Entry) : Prop := l.Pairwise fun a b => flowTimeBefore b.key a.key = false

theorem flowMoveCandidate_iff {dsq : ℕ} {p : TaskRef} :
    flowMoveCandidate k dsq cpu p = true
      ↔ (k.task p).cpusPtr cpu = true ∧ k.dsqMove dsq p = true := by
  have hcpu : ¬ (cpu : ℤ) < 0 := by omega
  unfold flowMoveCandidate flowMaskOk
  simp only [hcpu, ↓reduceIte, Int.toNat_natCast]
  cases (k.task p).cpusPtr cpu <;> simp

theorem Walked.of_moved {dsq : ℕ} {before after : List Entry} {l : List Visit} {v : Visit}
    (h : Walked k cpu dsq before after l) (hv : v ∈ l) (hm : v.moved = true) :
    ∃ pre post, l = refused dsq pre ++ [v] ∧ before = pre ++ v.entry :: post ∧ after = pre ++ post
      ∧ flowMoveCandidate k dsq cpu v.entry.task = true
      ∧ (dsq ≠ flowOverflowDsq → ∀ u ∈ pre, flowMoveCandidate k dsq cpu u.task = false) := by
  cases h with
  | kept l rest hq ha =>
    obtain ⟨e, -, rfl⟩ := mem_refused.mp hv
    simp at hm
  | moved pre e post hq ha hok hpre =>
    rcases List.mem_append.mp hv with hv | hv
    · obtain ⟨e, -, rfl⟩ := mem_refused.mp hv
      simp at hm
    · rw [List.mem_singleton] at hv
      subst hv
      exact ⟨pre, post, rfl, hq, ha, hok, hpre⟩

theorem Walked.entry_mem {dsq : ℕ} {before after : List Entry} {l : List Visit} {v : Visit}
    (h : Walked k cpu dsq before after l) (hv : v ∈ l) : v.entry ∈ before := by
  cases h with
  | kept l rest hq ha =>
    obtain ⟨e, he, rfl⟩ := mem_refused.mp hv
    simp [hq, he]
  | moved pre e post hq ha hok hpre =>
    rcases List.mem_append.mp hv with hv | hv
    · obtain ⟨e, he, rfl⟩ := mem_refused.mp hv
      simp [hq, he]
    · rw [List.mem_singleton.mp hv, hq]
      simp

theorem PassOk.walked {Q : List ℕ} {s : Pass} (h : PassOk w k cpu Q s) {v : Visit}
    (hv : v ∈ s.log) :
    Walked k cpu v.dsq (w.dsq v.dsq) (s.world.dsq v.dsq) (visitsOf v.dsq s.log)
      ∧ v ∈ visitsOf v.dsq s.log :=
  ⟨h.queue v.dsq (h.within v hv).2, List.mem_filter.mpr ⟨hv, by simp⟩⟩

theorem PassOk.nodup {Q : List ℕ} {s : Pass} (h : PassOk w k cpu Q s) :
    ((movesOf s.log).map Visit.dsq).Nodup := by
  rw [List.nodup_iff_count_le_one]
  intro d
  have hfilter : ((movesOf s.log).map Visit.dsq).count d = (movesOf (visitsOf d s.log)).length := by
    rw [List.count, List.countP_map, List.countP_eq_length_filter, movesOf, visitsOf, movesOf,
      List.filter_comm]
    congr 2
  rw [hfilter]
  by_cases ht : d = scxLocalOn cpu
  · rw [visitsOf_eq_nil fun v hv hvd => (h.within v hv).2 (hvd.trans ht)]
    simp [movesOf]
  · exact (h.queue d ht).moves_le

/-- What one pass on `cpu` does to the queues and the counts. -/
structure PassContract (w : World) (k : Kernel) (cpu : ℕ) (s : Pass) : Prop where
  visits : s.visits = s.log.length ∧ s.log.length ≤ flowDispatchMaxVisit
  visited : ∀ v ∈ s.log, v.entry ∈ w.dsq v.dsq
  slots : (movesOf s.log).length ≤ k.nrSlots
  onePerQueue : ((movesOf s.log).map Visit.dsq).Nodup
  mask : ∀ v ∈ movesOf s.log, (k.task v.entry.task).cpusPtr cpu = true
  /-- No other visited task of a tier could move. -/
  first : ∀ v ∈ movesOf s.log, v.dsq ≠ flowOverflowDsq → ∀ u ∈ s.log, u.dsq = v.dsq →
    (k.task u.entry.task).cpusPtr cpu = true → k.dsqMove u.dsq u.entry.task = true → u = v
  /-- Nor could any task of the tier with an earlier key. -/
  earliest : ∀ v ∈ movesOf s.log, v.dsq ≠ flowOverflowDsq → KeySorted (w.dsq v.dsq) →
    ∀ u ∈ w.dsq v.dsq, (k.task u.task).cpusPtr cpu = true → k.dsqMove v.dsq u.task = true →
    flowTimeBefore u.key v.entry.key = false
  stay : ∀ d, d ≠ scxLocalOn cpu → (∀ v ∈ movesOf s.log, v.dsq ≠ d) → s.world.dsq d = w.dsq d
  taken : ∀ v ∈ movesOf s.log, ∃ pre post, w.dsq v.dsq = pre ++ v.entry :: post
    ∧ s.world.dsq v.dsq = pre ++ post
  terminal : s.world.dsq (scxLocalOn cpu) = w.dsq (scxLocalOn cpu) ++ arrivals s.log
  tallied : Tallied s
  counted : statsLive w k →
    (∀ c ∈ [Counter.localMoves, .nodeMoves, .machineMoves, .redReclaims],
      w.cpuStats k.smpCpu c ≠ u64Max) → MovesCounted w s.world k s

theorem PassOk.first {Q : List ℕ} {s : Pass} (h : PassOk w k cpu Q s) :
    ∀ v ∈ movesOf s.log, v.dsq ≠ flowOverflowDsq → ∀ u ∈ s.log, u.dsq = v.dsq →
      (k.task u.entry.task).cpusPtr cpu = true → k.dsqMove u.dsq u.entry.task = true → u = v := by
  intro v hv ho u hu hd hmask hmove
  obtain ⟨hvl, hvm⟩ := mem_movesOf.mp hv
  obtain ⟨hw, hmem⟩ := h.walked hvl
  obtain ⟨pre, post, hl, -, -, -, hpre⟩ := hw.of_moved hmem hvm
  obtain ⟨-, humem⟩ := h.walked hu
  rw [hd, hl] at humem
  rcases List.mem_append.mp humem with hr | hr
  · obtain ⟨e, he, rfl⟩ := mem_refused.mp hr
    have hcand := flowMoveCandidate_iff.mpr ⟨hmask, hmove⟩
    rw [hpre ho e he] at hcand
    exact absurd hcand Bool.false_ne_true
  · exact List.mem_singleton.mp hr

theorem PassOk.earliest {Q : List ℕ} {s : Pass} (h : PassOk w k cpu Q s) :
    ∀ v ∈ movesOf s.log, v.dsq ≠ flowOverflowDsq → KeySorted (w.dsq v.dsq) →
      ∀ u ∈ w.dsq v.dsq, (k.task u.task).cpusPtr cpu = true → k.dsqMove v.dsq u.task = true →
      flowTimeBefore u.key v.entry.key = false := by
  intro v hv ho hsort u hu hmask hmove
  obtain ⟨hvl, hvm⟩ := mem_movesOf.mp hv
  obtain ⟨hw, hmem⟩ := h.walked hvl
  obtain ⟨pre, post, -, hq, -, -, hpre⟩ := hw.of_moved hmem hvm
  rw [hq] at hu
  rcases List.mem_append.mp hu with hu | hu
  · have hcand := flowMoveCandidate_iff.mpr ⟨hmask, hmove⟩
    rw [hpre ho u hu] at hcand
    exact absurd hcand Bool.false_ne_true
  · rcases List.mem_cons.mp hu with rfl | hu
    · exact flowTimeBefore_self _
    · rw [hq, KeySorted, List.pairwise_append, List.pairwise_cons] at hsort
      exact hsort.2.1.1 u hu

theorem PassOk.taken {Q : List ℕ} {s : Pass} (h : PassOk w k cpu Q s) :
    ∀ v ∈ movesOf s.log, (k.task v.entry.task).cpusPtr cpu = true
      ∧ ∃ pre post, w.dsq v.dsq = pre ++ v.entry :: post ∧ s.world.dsq v.dsq = pre ++ post := by
  intro v hv
  obtain ⟨hvl, hvm⟩ := mem_movesOf.mp hv
  obtain ⟨hw, hmem⟩ := h.walked hvl
  obtain ⟨pre, post, -, hq, ha, hok, -⟩ := hw.of_moved hmem hvm
  exact ⟨(flowMoveCandidate_iff.mp hok).1, pre, post, hq, ha⟩

theorem PassOk.stay {Q : List ℕ} {s : Pass} (h : PassOk w k cpu Q s) {d : ℕ}
    (ht : d ≠ scxLocalOn cpu) (hd : ∀ v ∈ movesOf s.log, v.dsq ≠ d) :
    s.world.dsq d = w.dsq d := by
  have hw := h.queue d ht
  generalize hl : visitsOf d s.log = l at hw
  cases hw with
  | kept l rest hq ha => exact ha
  | moved pre e post hq ha hok hpre =>
    have hmem : (⟨d, e, true⟩ : Visit) ∈ visitsOf d s.log := by simp [hl]
    exact absurd rfl (hd ⟨d, e, true⟩ (mem_movesOf.mpr ⟨(List.mem_filter.mp hmem).1, rfl⟩))

/-- One pass on a live CPU visits at most eight tasks, moves within its slots and once a queue,
moves what the mask allows and the kernel takes, earliest first, keeps every other task in its place,
and counts each move once. -/
theorem flowDispatch_contract (w : World) (k : Kernel) (cpu : ℕ)
    (hl : flowCpuLive w cpu = true) : PassContract w k cpu (flowDispatchPass w k cpu true) := by
  obtain ⟨s, ⟨Q, hok⟩, ht, hlog, hvis, -, htally, hacc⟩ := flowDispatchPass_live (k := k) hl true
  simp only [Pass.tally, Prod.mk.injEq] at htally
  obtain ⟨hlm, hnm, hmm, hrm⟩ := htally
  have hcount := hok.count
  constructor
  case visits =>
    rw [hvis, hlog]
    exact ⟨hcount, hcount ▸ hok.cap⟩
  case visited =>
    rw [hlog]
    intro v hv
    obtain ⟨hw, hmem⟩ := hok.walked hv
    exact hw.entry_mem hmem
  case slots =>
    have hslots := hok.slots
    rw [hlog]
    omega
  case onePerQueue =>
    rw [hlog]
    exact hok.nodup
  case mask =>
    rw [hlog]
    exact fun v hv => (hok.taken v hv).1
  case first =>
    rw [hlog]
    exact hok.first
  case earliest =>
    rw [hlog]
    exact hok.earliest
  case stay =>
    rw [hlog, hacc.dsq]
    exact fun d htm hd => hok.stay htm hd
  case taken =>
    rw [hlog, hacc.dsq]
    exact fun v hv => (hok.taken v hv).2
  case terminal =>
    rw [hlog, hacc.dsq]
    exact hok.terminal
  case tallied =>
    constructor
    · rw [hlog, hlm, hnm, hmm]
      exact ht.moves
    · rw [hlog, hrm]
      exact ht.reclaims
  case counted =>
    intro hlive hsat
    have hk := hok.keeps
    have hlive' : statsLive s.world k := by
      rw [statsLive, hk.nrCpuIds]
      exact hlive
    have hc := flowDispatchAccount_counted hlive' (by rw [hk.cpuStats]; exact hsat)
    rw [MovesCounted, hk.cpuStats] at hc
    rw [MovesCounted, hacc.cpuStats, hlm, hnm, hmm, hrm]
    exact hc

/-- One task on the local queue of CPU 0, two on its node and one rejected. -/
def World.queued : World :=
  (((World.boot 2 1 fun _ => 0).setDsq (flowLocalDsq 0) [⟨0, 5⟩]).setDsq (flowNodeDsq 0)
    [⟨1, 7⟩, ⟨2, 9⟩]).setDsq flowOverflowDsq [⟨3, 0⟩]

theorem flowDispatch_contract_queued : flowCpuLive World.queued 0 = true
    ∧ PassContract World.queued (Kernel.plain 1000) 0
      (flowDispatchPass World.queued (Kernel.plain 1000) (0 : ℕ) true) :=
  ⟨by decide, flowDispatch_contract World.queued (Kernel.plain 1000) 0 (by decide)⟩

end Contract

end ScxFlow
