import ScxFlow.Dispatch
import ScxFlow.Proofs.Effects

/-!
# The stages of a dispatch pass

Every stage of a pass walks at most one queue and moves at most one of its tasks.  `Stage` says what
such a walk leaves, once for the tier moves, the reclaim and the steal; a pass is a few stages on
queues that differ.
-/

namespace ScxFlow

section OneWalk

/-- The visits of a pass that moved their task. -/
def movesOf (l : List Visit) : List Visit := l.filter Visit.moved

@[simp] theorem movesOf_append (l l' : List Visit) : movesOf (l ++ l') = movesOf l ++ movesOf l' :=
  List.filter_append ..

theorem mem_movesOf {v : Visit} {l : List Visit} : v ∈ movesOf l ↔ v ∈ l ∧ v.moved = true :=
  List.mem_filter

/-- Visits that moved nothing. -/
def refused (dsq : ℕ) (l : List Entry) : List Visit := l.map (⟨dsq, ·, false⟩)

theorem mem_refused {dsq : ℕ} {l : List Entry} {v : Visit} :
    v ∈ refused dsq l ↔ ∃ e ∈ l, v = ⟨dsq, e, false⟩ := by
  unfold refused
  simp only [List.mem_map, eq_comm]

@[simp] theorem movesOf_refused (dsq : ℕ) (l : List Entry) : movesOf (refused dsq l) = [] := by
  unfold movesOf
  rw [List.filter_eq_nil_iff]
  intro v hv
  obtain ⟨e, -, rfl⟩ := mem_refused.mp hv
  simp

@[simp] theorem movesOf_singleton (dsq : ℕ) (e : Entry) :
    movesOf [⟨dsq, e, true⟩] = [⟨dsq, e, true⟩] := rfl

@[simp] theorem length_refused (dsq : ℕ) (l : List Entry) : (refused dsq l).length = l.length :=
  List.length_map ..

/-- What moves bring to the terminal queue. -/
def arrivals (l : List Visit) : List Entry := (movesOf l).map fun v => ⟨v.entry.task, 0⟩

@[simp] theorem arrivals_append (l l' : List Visit) :
    arrivals (l ++ l') = arrivals l ++ arrivals l' := by
  simp [arrivals]

/-- A walk of one queue: it passes over a prefix, and moves the entry behind it or none. -/
inductive Walked (k : Kernel) (cpu dsq : ℕ) (before after : List Entry) : List Visit → Prop
  | kept (l rest : List Entry) (hq : before = l ++ rest) (ha : after = before) :
    Walked k cpu dsq before after (refused dsq l)
  | moved (pre : List Entry) (e : Entry) (post : List Entry) (hq : before = pre ++ e :: post)
    (ha : after = pre ++ post) (hok : flowMoveCandidate k dsq cpu e.task = true)
    -- the reject walk passes over its own test's refusals instead
    (hpre : dsq ≠ flowOverflowDsq → ∀ u ∈ pre, flowMoveCandidate k dsq cpu u.task = false) :
    Walked k cpu dsq before after (refused dsq pre ++ [⟨dsq, e, true⟩])

theorem Walked.nil (k : Kernel) (cpu dsq : ℕ) (l : List Entry) : Walked k cpu dsq l l [] :=
  .kept [] l rfl rfl

/-- The state a pass leaves alone: all but the queues, the credit, the cursors and the levels. -/
structure Keeps (w w' : World) : Prop where
  nrCpuIds : w'.nrCpuIds = w.nrCpuIds
  nrNodeIds : w'.nrNodeIds = w.nrNodeIds
  topoNode : w'.topoNode = w.topoNode
  taskCtx : w'.taskCtx = w.taskCtx
  hintStor : w'.hintStor = w.hintStor
  cpuStats : w'.cpuStats = w.cpuStats
  owner : ∀ cpu, (w'.cpuState cpu).runningPid = (w.cpuState cpu).runningPid

theorem Keeps.refl (w : World) : Keeps w w := ⟨rfl, rfl, rfl, rfl, rfl, rfl, fun _ => rfl⟩

theorem Keeps.trans {w w' w'' : World} (h : Keeps w w') (h' : Keeps w' w'') : Keeps w w'' :=
  ⟨h'.nrCpuIds.trans h.nrCpuIds, h'.nrNodeIds.trans h.nrNodeIds, h'.topoNode.trans h.topoNode,
    h'.taskCtx.trans h.taskCtx, h'.hintStor.trans h.hintStor, h'.cpuStats.trans h.cpuStats,
    fun cpu => (h'.owner cpu).trans (h.owner cpu)⟩

/-- One stage: a walk of `dsq` that adds the visits `new`. -/
structure Stage (k : Kernel) (cpu dsq : ℕ) (s s' : Pass) (new : List Visit) : Prop where
  keeps : Keeps s.world s'.world
  log : s'.log = s.log ++ new
  visits : s'.visits = s.visits + new.length
  cap : s.visits ≤ flowDispatchMaxVisit → s'.visits ≤ flowDispatchMaxVisit
  left : s'.left + (movesOf new).length = s.left
  queue : Walked k cpu dsq (s.world.dsq dsq) (s'.world.dsq dsq) new
  terminal : s'.world.dsq (scxLocalOn cpu) = s.world.dsq (scxLocalOn cpu) ++ arrivals new
  others : ∀ d, d ≠ dsq → d ≠ scxLocalOn cpu → s'.world.dsq d = s.world.dsq d

theorem Stage.refl (k : Kernel) (cpu dsq : ℕ) (s : Pass) : Stage k cpu dsq s s [] where
  keeps := .refl _
  log := by simp
  visits := rfl
  cap h := h
  left := rfl
  queue := .nil k cpu dsq _
  terminal := by simp [arrivals, movesOf]
  others _ _ _ := rfl

theorem Stage.congr {k : Kernel} {cpu dsq : ℕ} {s s' t : Pass} {new : List Visit}
    (h : Stage k cpu dsq s s' new) (hk : Keeps s'.world t.world)
    (hd : t.world.dsq = s'.world.dsq) (hl : t.log = s'.log) (hv : t.visits = s'.visits)
    (hf : t.left = s'.left) : Stage k cpu dsq s t new where
  keeps := h.keeps.trans hk
  log := hl.trans h.log
  visits := hv.trans h.visits
  cap hc := by rw [hv]; exact h.cap hc
  left := by rw [hf]; exact h.left
  queue := by rw [hd]; exact h.queue
  terminal := by rw [hd]; exact h.terminal
  others := by rw [hd]; exact h.others

theorem flowDispatchNode_lt (w : World) (cpu : ℕ) : flowDispatchNode w cpu < flowMaxNodes := by
  unfold flowDispatchNode
  simp only
  split_ifs with h
  · decide
  · exact Nat.lt_of_not_le (not_or.mp h).1

end OneWalk

section StageWalk

variable {k : Kernel} {cpu dsq : ℕ} {s : Pass}

theorem dsqMoved_keeps (w : World) (dsq cpu : ℕ) (rest : List Entry) (e : Entry) :
    Keeps w (w.dsqMoved dsq cpu rest e) :=
  ⟨rfl, rfl, rfl, rfl, rfl, rfl, fun _ => rfl⟩

theorem dsqMoved_dsq (w : World) {dsq cpu : ℕ} (rest : List Entry) (e : Entry)
    (h : dsq ≠ scxLocalOn cpu) :
    (w.dsqMoved dsq cpu rest e).dsq dsq = rest
      ∧ (w.dsqMoved dsq cpu rest e).dsq (scxLocalOn cpu)
        = w.dsq (scxLocalOn cpu) ++ [⟨e.task, 0⟩]
      ∧ ∀ d, d ≠ dsq → d ≠ scxLocalOn cpu → (w.dsqMoved dsq cpu rest e).dsq d = w.dsq d := by
  unfold World.dsqMoved World.setDsq
  refine ⟨?_, ?_, fun d hd ht => ?_⟩
  · simp [h]
  · simp
  · simp [hd, ht]

theorem walked_kept {r : Scan Entry} {moved : Bool} (h : (r.hit.isSome && moved) = false) :
    s.walked dsq cpu r moved = { s with
      visits := s.visits + r.visited.length
      log := s.log ++ refused dsq r.visited } := by
  rcases hhit : r.hit with _ | e
  · simp [Pass.walked, refused, Scan.visited, hhit]
  · obtain rfl : moved = false := by simpa [hhit] using h
    simp [Pass.walked, refused, Scan.visited, hhit]

theorem walked_moved {r : Scan Entry} {e : Entry} (h : r.hit = some e) :
    s.walked dsq cpu r true = { s with
      visits := s.visits + r.visited.length
      log := s.log ++ (refused dsq r.seen ++ [⟨dsq, e, true⟩])
      world := s.world.dsqMoved dsq cpu r.left e } := by
  simp [Pass.walked, refused, h]

/-- A walk within what is left of the visits, which moves what it stops at or not. -/
theorem walked_stage (ok : Entry → Bool) (moved : Bool) {r : Scan Entry} {n : ℕ}
    (hd : dsq ≠ scxLocalOn cpu) (hleft : s.left ≠ 0)
    (hr : r = Scan.walk ok (flowDispatchMaxVisit - s.visits) (s.world.dsq dsq))
    (hn : n = if r.hit.isSome && moved then 1 else 0)
    (hmove : moved = true → ∀ e, r.hit = some e → flowMoveCandidate k dsq cpu e.task = true)
    (hpre : dsq ≠ flowOverflowDsq → ∀ e, ok e = flowMoveCandidate k dsq cpu e.task) :
    ∃ new, Stage k cpu dsq s { s.walked dsq cpu r moved with left := s.left - n } new
      ∧ (movesOf new).length = n := by
  have hvis : r.visited.length ≤ flowDispatchMaxVisit - s.visits := by
    rw [hr]
    exact Scan.visited_length_le ..
  have hcap : s.visits ≤ flowDispatchMaxVisit →
      s.visits + r.visited.length ≤ flowDispatchMaxVisit := fun h => by omega
  have hparts : r.seen ++ r.hit.toList ++ r.rest = s.world.dsq dsq := by
    rw [hr]
    exact Scan.walk_parts ..
  have hseen : ∀ e ∈ r.seen, ok e = false := by
    rw [hr]
    exact Scan.not_ok_of_mem_seen ok _ _
  rcases hm : r.hit.isSome && moved with _ | _
  · rw [hm, if_neg (by simp)] at hn
    subst hn
    rw [walked_kept hm]
    exact ⟨refused dsq r.visited, ⟨.refl _, rfl, by simp, hcap, by simp,
      .kept r.visited r.rest hparts.symm rfl, by simp [arrivals], fun _ _ _ => rfl⟩, by simp⟩
  · rw [hm, if_pos rfl] at hn
    subst hn
    obtain ⟨hsome, rfl⟩ := Bool.and_eq_true_iff.mp hm
    obtain ⟨e, he⟩ := Option.isSome_iff_exists.mp hsome
    obtain ⟨hq, ht, ho⟩ := dsqMoved_dsq s.world r.left e hd
    rw [walked_moved he]
    refine ⟨refused dsq r.seen ++ [⟨dsq, e, true⟩], ⟨dsqMoved_keeps _ _ _ _ _, rfl, ?_, hcap, ?_,
      ?_, ?_, ho⟩, by simp⟩
    · simp [Scan.visited, he]
    · simp only [movesOf_append, movesOf_refused, movesOf_singleton, List.nil_append,
        List.length_singleton]
      exact Nat.sub_add_cancel (Nat.pos_of_ne_zero hleft)
    · refine .moved r.seen e r.rest ?_ hq (hmove rfl e he) fun hne u hu => ?_
      · rw [← hparts, he]
        simp
      · rw [← hpre hne u]
        exact hseen u hu
    · have harr : arrivals (refused dsq r.seen ++ [⟨dsq, e, true⟩]) = [⟨e.task, 0⟩] := by
        simp [arrivals]
      rw [harr]
      exact ht

end StageWalk

section SourceStages

variable {k : Kernel} {cpu dsq : ℕ} {s : Pass}

/-- What the stages add to the four move counts. -/
def Pass.tally (s : Pass) : ℕ × ℕ × ℕ × ℕ :=
  (s.localMoved, s.nodeMoved, s.machineMoved, s.reclaimMoved)

theorem Walked.moves_le {before after : List Entry} {new : List Visit}
    (h : Walked k cpu dsq before after new) : (movesOf new).length ≤ 1 := by
  cases h with
  | kept l rest hq ha => simp
  | moved pre e post hq ha hok hpre => simp

theorem flowMoveOneHint_stage (hd : dsq ≠ scxLocalOn cpu) (hleft : s.left ≠ 0) (queued : ℤ) :
    ∃ new, Stage k cpu dsq s { (flowMoveOneHint k dsq cpu queued s).1 with
        left := s.left - (flowMoveOneHint k dsq cpu queued s).2 } new
      ∧ (movesOf new).length = (flowMoveOneHint k dsq cpu queued s).2
      ∧ (flowMoveOneHint k dsq cpu queued s).1.left = s.left
      ∧ (flowMoveOneHint k dsq cpu queued s).1.tally = s.tally := by
  have hskip : ∃ new, Stage k cpu dsq s { s with left := s.left - 0 } new
      ∧ (movesOf new).length = 0 ∧ s.left = s.left ∧ s.tally = s.tally :=
    ⟨[], .refl k cpu dsq s, rfl, rfl, rfl⟩
  unfold flowMoveOneHint
  split
  · exact hskip
  · split
    · exact hskip
    · split
      · exact hskip
      · split
        · exact hskip
        · have hok := fun e => Scan.ok_of_hit (fun e : Entry => flowMoveCandidate k dsq cpu e.task)
            (flowDispatchMaxVisit - s.visits) (s.world.dsq dsq) (a := e)
          obtain ⟨new, hs, hn⟩ := walked_stage (k := k) _ true hd hleft rfl rfl
            (fun _ => hok)
            fun _ e => rfl
          rw [Bool.and_true] at hs hn
          exact ⟨new, hs, hn, rfl, rfl⟩

theorem clamp_left {n left : ℕ} (hn : n ≤ 1) (hleft : left ≠ 0) :
    (if n > left then left else n) = n := by
  rw [if_neg (by omega)]

theorem flowDispatchTier_stage (hd : dsq ≠ scxLocalOn cpu) (queued : ℤ) :
    ∃ new, Stage k cpu dsq s (flowDispatchTier k dsq cpu queued s).1 new
      ∧ (movesOf new).length = (flowDispatchTier k dsq cpu queued s).2
      ∧ (flowDispatchTier k dsq cpu queued s).1.tally = s.tally := by
  have hskip : ∃ new, Stage k cpu dsq s s new ∧ (movesOf new).length = 0 ∧ s.tally = s.tally :=
    ⟨[], .refl k cpu dsq s, rfl, rfl⟩
  unfold flowDispatchTier
  split
  · rename_i h
    split
    · obtain ⟨new, hs, hn, hl, ht⟩ := flowMoveOneHint_stage (k := k) hd h.1 queued
      have hone := hs.queue.moves_le
      rw [hn] at hone
      simp only [hl, clamp_left hone h.1]
      exact ⟨new, hs, hn, ht⟩
    · exact hskip
  · exact hskip

theorem flowDispatchLocal_stage (hm : cpu < flowMaxCpus) (d : Depths) :
    ∃ new, Stage k cpu (flowLocalDsq cpu) s (flowDispatchLocal k cpu d s) new
      ∧ (flowDispatchLocal k cpu d s).tally
        = ((movesOf new).length, s.nodeMoved, s.machineMoved, s.reclaimMoved) := by
  have hd : flowLocalDsq cpu ≠ scxLocalOn cpu :=
    scxLocalOn_ne ((flowLocalDsq_lt hm).trans (by decide))
  obtain ⟨new, hs, hn, ht⟩ := flowDispatchTier_stage (k := k) (s := s) hd d.lq0
  refine ⟨new, hs.congr (.refl _) rfl rfl rfl rfl, ?_⟩
  simp only [Pass.tally, Prod.mk.injEq] at ht
  simp only [Pass.tally, flowDispatchLocal, Int.toNat_natCast, hn, ht]

variable (cpu) in
theorem flowDispatchNodeTier_stage {node : ℕ} (hm : node < flowMaxNodes) (d : Depths) :
    ∃ new, Stage k cpu (flowNodeDsq node) s (flowDispatchNodeTier k cpu node d s) new
      ∧ (flowDispatchNodeTier k cpu node d s).tally
        = (s.localMoved, (movesOf new).length, s.machineMoved, s.reclaimMoved) := by
  have hd : flowNodeDsq node ≠ scxLocalOn cpu :=
    scxLocalOn_ne ((flowNodeDsq_lt hm).trans (by decide))
  obtain ⟨new, hs, hn, ht⟩ := flowDispatchTier_stage (k := k) (s := s) hd d.nq0
  refine ⟨new, hs.congr (.refl _) rfl rfl rfl rfl, ?_⟩
  simp only [Pass.tally, Prod.mk.injEq] at ht
  simp only [Pass.tally, flowDispatchNodeTier, hn, ht]

variable (cpu) in
theorem flowDispatchMachine_stage (d : Depths) :
    ∃ new, Stage k cpu flowMachineDsq s (flowDispatchMachine k cpu d s) new
      ∧ (flowDispatchMachine k cpu d s).tally
        = (s.localMoved, s.nodeMoved, (movesOf new).length, s.reclaimMoved) := by
  have hd : flowMachineDsq ≠ scxLocalOn cpu := scxLocalOn_ne (by decide)
  obtain ⟨new, hs, hn, ht⟩ := flowDispatchTier_stage (k := k) (s := s) hd d.mq0
  refine ⟨new, hs.congr (.refl _) rfl rfl rfl rfl, ?_⟩
  simp only [Pass.tally, Prod.mk.injEq] at ht
  simp only [Pass.tally, flowDispatchMachine, hn, ht]

theorem Stage.of_credit {s' : Pass} {new : List Visit} {cell : UInt64}
    (h : Stage k cpu dsq { s with world := { s.world with reclaimCredit := cell } } s' new) :
    Stage k cpu dsq s s' new :=
  ⟨⟨h.keeps.nrCpuIds, h.keeps.nrNodeIds, h.keeps.topoNode, h.keeps.taskCtx, h.keeps.hintStor,
    h.keeps.cpuStats, h.keeps.owner⟩, h.log, h.visits, h.cap, h.left, h.queue, h.terminal, h.others⟩

variable (cpu) in
theorem flowRejectReclaimOne_stage (hleft : s.left ≠ 0) (queued : ℤ) (tiersEmpty : Bool) :
    ∃ new, Stage k cpu flowOverflowDsq s { (flowRejectReclaimOne k cpu queued tiersEmpty s).1 with
        left := s.left - (flowRejectReclaimOne k cpu queued tiersEmpty s).2 } new
      ∧ (movesOf new).length = (flowRejectReclaimOne k cpu queued tiersEmpty s).2
      ∧ (flowRejectReclaimOne k cpu queued tiersEmpty s).1.left = s.left
      ∧ (flowRejectReclaimOne k cpu queued tiersEmpty s).1.tally = s.tally := by
  have hskip : ∃ new, Stage k cpu flowOverflowDsq s { s with left := s.left - 0 } new
      ∧ (movesOf new).length = 0 ∧ s.left = s.left ∧ s.tally = s.tally :=
    ⟨[], .refl k cpu flowOverflowDsq s, rfl, rfl, rfl⟩
  have hd : flowOverflowDsq ≠ scxLocalOn cpu := scxLocalOn_ne (by decide)
  unfold flowRejectReclaimOne
  split
  · exact hskip
  split
  · exact hskip
  split
  · exact hskip
  split
  · exact hskip
  split
  · exact hskip
  simp only [Int.toNat_natCast]
  split
  · rename_i hhit
    obtain ⟨new, hs, hn⟩ := walked_stage (k := k) (s := s) _ false hd hleft rfl rfl
      (fun h => absurd h (by simp)) fun h => absurd rfl h
    simp only [Bool.and_false, Bool.false_eq_true, ↓reduceIte] at hs hn
    exact ⟨new, hs, hn, rfl, rfl⟩
  · rename_i e hhit
    obtain ⟨new, hs, hn⟩ := walked_stage (k := k) (s := { s with world := { s.world with
        reclaimCredit := (flowReclaimTest k s.world cpu tiersEmpty e.task).getD
          s.world.reclaimCredit } })
      (fun e => (flowReclaimTest k s.world cpu tiersEmpty e.task).isSome)
      (flowMoveCandidate k flowOverflowDsq cpu e.task) hd hleft rfl rfl
      (fun h e' he' => by
        rw [hhit] at he'
        rw [← Option.some.inj he']
        exact h) fun h => absurd rfl h
    rw [hhit] at hs hn
    simp only [Option.isSome_some, Bool.true_and] at hs hn
    exact ⟨new, hs.of_credit, hn, rfl, rfl⟩

variable (cpu) in
theorem flowDispatchReclaim_stage (d : Depths) :
    ∃ new, Stage k cpu flowOverflowDsq s (flowDispatchReclaim k cpu d s) new
      ∧ (flowDispatchReclaim k cpu d s).tally = (s.localMoved + (movesOf new).length, s.nodeMoved,
        s.machineMoved, s.reclaimMoved + (movesOf new).length) := by
  have hskip : ∃ new, Stage k cpu flowOverflowDsq s s new ∧ s.tally
      = (s.localMoved + (movesOf new).length, s.nodeMoved, s.machineMoved,
        s.reclaimMoved + (movesOf new).length) :=
    ⟨[], .refl k cpu flowOverflowDsq s, rfl⟩
  unfold flowDispatchReclaim
  split
  · rename_i h
    simp only
    split
    · obtain ⟨new, hs, hn, hl, ht⟩ := flowRejectReclaimOne_stage (k := k) cpu h.1
        (nrQueued s.world flowOverflowDsq) (decide (d.lq0 ≤ 0 ∧ d.nq0 ≤ 0 ∧ d.mq0 ≤ 0))
      have hone := hs.queue.moves_le
      rw [hn] at hone
      simp only [hl, clamp_left hone h.1]
      refine ⟨new, hs.congr (.refl _) rfl rfl rfl rfl, ?_⟩
      simp only [Pass.tally, Prod.mk.injEq] at ht
      simp only [Pass.tally, hn, ht]
    · exact hskip
  · exact hskip

end SourceStages

section Steal

variable {k : Kernel} {cpu dsq : ℕ} {s : Pass}

/-- The peers a steal finds are live and not the thief. -/
def PeersOk (w : World) (cpu : ℕ) (f : StealPeers) : Prop :=
  ∀ peer, f.localPeer = some peer ∨ f.remotePeer = some peer →
    peer ≠ cpu ∧ flowCpuLive w peer = true

theorem stealPeer_ok {w : World} {visits window start : ℕ} {f : StealPeers}
    (h : PeersOk w cpu f) (off : ℕ) : PeersOk w cpu (stealPeer w cpu visits window start f off) := by
  unfold stealPeer
  split
  · exact h
  split
  · exact h
  split
  · exact h
  simp only
  split
  · exact h
  split
  · exact h
  split
  · exact h
  rename_i hne hlive _
  have hnew : flowWrapIdx (start + off) w.nrCpuIds ≠ cpu
      ∧ flowCpuLive w (flowWrapIdx (start + off) w.nrCpuIds) = true :=
    ⟨fun he => hne (by rw [he]), by simpa using hlive⟩
  split
  · split
    · rintro peer (hp | hp)
      · rw [← Option.some.inj hp]
        exact hnew
      · exact h peer (Or.inr hp)
    · exact h
  · split
    · rintro peer (hp | hp)
      · exact h peer (Or.inl hp)
      · rw [← Option.some.inj hp]
        exact hnew
    · exact h

theorem stealPeers_ok {w : World} {visits window start : ℕ} :
    ∀ (offs : List ℕ) {f : StealPeers}, PeersOk w cpu f →
      PeersOk w cpu (offs.foldl (stealPeer w cpu visits window start) f)
  | [], _, h => h
  | off :: offs, _, h => stealPeers_ok offs (stealPeer_ok h off)

/-- A steal is nothing, or one move from the local queue of a live peer. -/
theorem flowStealOne_cases (k : Kernel) (cpu cursor : ℕ) (s : Pass) :
    flowStealOne k cpu cursor s = (s, 0)
      ∨ ∃ peer, peer ≠ cpu ∧ flowCpuLive s.world peer = true ∧ flowStealOne k cpu cursor s
        = flowMoveOneHint k (flowLocalDsq peer) cpu (nrQueued s.world (flowLocalDsq peer)) s := by
  unfold flowStealOne
  simp only
  split
  · exact Or.inl rfl
  split
  · exact Or.inl rfl
  split
  · exact Or.inl rfl
  split
  · exact Or.inl rfl
  generalize hf : List.foldl _ _ _ = f
  have hok : PeersOk s.world cpu f := by
    rw [← hf]
    refine stealPeers_ok _ ?_
    rintro peer (hp | hp)
    · simp at hp
    · simp at hp
  split
  · rename_i peer hp
    exact Or.inr ⟨peer, (hok peer (Or.inl hp)).1, (hok peer (Or.inl hp)).2, rfl⟩
  · rename_i peer _ hp
    exact Or.inr ⟨peer, (hok peer (Or.inr hp)).1, (hok peer (Or.inr hp)).2, rfl⟩
  · exact Or.inl rfl

theorem flowCursorAdvance_keeps (w : World) (cpu cursor moved : ℕ) :
    Keeps w (flowCursorAdvance w cpu cursor moved)
      ∧ (flowCursorAdvance w cpu cursor moved).dsq = w.dsq := by
  unfold flowCursorAdvance flowCpu
  split
  · exact ⟨.refl w, rfl⟩
  · rename_i cst hst
    split
    · refine ⟨⟨rfl, rfl, rfl, rfl, rfl, rfl, fun c => ?_⟩, rfl⟩
      split at hst
      · simp at hst
      · obtain rfl := Option.some.inj hst
        by_cases hc : c = cpu
        · subst hc
          simp [World.setCpu]
        · simp [World.setCpu, hc]
    · exact ⟨.refl w, rfl⟩

/-- The pass after a steal that came back with `r`. -/
def stolen (cpu cursor : ℕ) (r : Pass × ℕ) : Pass :=
  let moved := if r.2 > r.1.left then r.1.left else r.2
  { r.1 with
    left := r.1.left - moved
    localMoved := r.1.localMoved + moved
    world := flowCursorAdvance r.1.world cpu cursor moved }

theorem Stage.idle {t : Pass} (hk : Keeps s.world t.world) (hd : t.world.dsq = s.world.dsq)
    (hl : t.log = s.log) (hv : t.visits = s.visits) (hf : t.left = s.left) :
    Stage k cpu dsq s t [] :=
  (Stage.refl k cpu dsq s).congr hk hd hl hv hf

theorem exists_peer (cpu : ℕ) : ∃ peer, peer ≠ cpu ∧ peer < flowMaxCpus := by
  by_cases hc : cpu = 0
  · exact ⟨1, by omega, by decide⟩
  · exact ⟨0, by omega, by decide⟩

theorem stolen_stage (hleft : s.left ≠ 0) (cursor : ℕ) :
    ∃ peer new, peer ≠ cpu ∧ peer < flowMaxCpus
      ∧ Stage k cpu (flowLocalDsq peer) s (stolen cpu cursor (flowStealOne k cpu cursor s)) new
      ∧ (stolen cpu cursor (flowStealOne k cpu cursor s)).tally
        = (s.localMoved + (movesOf new).length, s.nodeMoved, s.machineMoved, s.reclaimMoved) := by
  rcases flowStealOne_cases k cpu cursor s with hst | ⟨peer, hne, hlive, hst⟩
  · obtain ⟨peer, hne, hlt⟩ := exists_peer cpu
    obtain ⟨hk, hd⟩ := flowCursorAdvance_keeps s.world cpu cursor 0
    rw [hst]
    exact ⟨peer, [], hne, hlt, .idle hk hd rfl rfl rfl, rfl⟩
  · have hlt := (flowCpuLive_iff.mp hlive).2
    have hq : flowLocalDsq peer ≠ scxLocalOn cpu :=
      scxLocalOn_ne ((flowLocalDsq_lt hlt).trans (by decide))
    obtain ⟨new, hs, hn, hl, ht⟩ := flowMoveOneHint_stage (k := k) hq hleft
      (nrQueued s.world (flowLocalDsq peer))
    have hone := hs.queue.moves_le
    rw [hn] at hone
    rw [hst]
    generalize flowMoveOneHint k (flowLocalDsq peer) cpu (nrQueued s.world (flowLocalDsq peer)) s
      = r at *
    simp only [stolen, hl, clamp_left hone hleft]
    obtain ⟨hk, hd⟩ := flowCursorAdvance_keeps r.1.world cpu cursor r.2
    refine ⟨peer, new, hne, hlt, hs.congr hk hd rfl rfl rfl, ?_⟩
    simp only [Pass.tally, Prod.mk.injEq] at ht
    simp only [Pass.tally, hn, ht]

variable (cpu) in
theorem flowDispatchSteal_stage (d : Depths) :
    ∃ peer new, peer ≠ cpu ∧ peer < flowMaxCpus
      ∧ Stage k cpu (flowLocalDsq peer) s (flowDispatchSteal k cpu d s) new
      ∧ (flowDispatchSteal k cpu d s).tally = (s.localMoved + (movesOf new).length, s.nodeMoved,
        s.machineMoved, s.reclaimMoved) := by
  obtain ⟨peer, hne, hlt⟩ := exists_peer cpu
  unfold flowDispatchSteal
  split
  · rename_i h
    simp only
    split
    · exact stolen_stage h.1 _
    · exact ⟨peer, [], hne, hlt, .refl k cpu _ s, rfl⟩
  · exact ⟨peer, [], hne, hlt, .refl k cpu _ s, rfl⟩

end Steal

end ScxFlow
