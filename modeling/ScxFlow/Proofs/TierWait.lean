import ScxFlow.Proofs.Progress

/-!
# No tier starves the one behind it

A pass gives every tier one move.  What it spends before it comes to a tier is a slot and a visit for
each tier before it and the visits of the tasks there that it may not run, however many wait in them.
A task it reaches with the rest is served (`reaches_le_serves`), and so waits for no more such passes
than its place and the earlier newcomers (`run_reaches`).
-/

namespace ScxFlow

variable {w : World} {k : Kernel} {p : TaskRef} {cpu d : ℕ}

/-- The tiers a pass comes to before this one. -/
def tiersBefore (w : World) (cpu d : ℕ) : List ℕ :=
  (tierQueues w cpu).takeWhile fun q => decide (q ≠ d)

/-- The visits a pass may spend on a tier: those of the tasks it may not run, and of its move. -/
def visitsOn (w : World) (k : Kernel) (cpu q : ℕ) : ℕ :=
  ((w.dsq q).countP fun e => !flowMoveCandidate k q cpu e.task) + 1

/-- The pass drains the tier, may run the task, and comes to it with a slot and the visits left. -/
def Reaches (p : TaskRef) (d : ℕ) (w : World) (k : Kernel) (cpu : ℕ) : Prop :=
  d ∈ tierQueues w cpu ∧ flowMoveCandidate k d cpu p = true
    ∧ (tiersBefore w cpu d).length < k.nrSlots
    ∧ ((tiersBefore w cpu d).map (visitsOn w k cpu)).sum + placeOf p d w ≤ flowDispatchMaxVisit

instance : Decidable (Reaches p d w k cpu) :=
  inferInstanceAs (Decidable (_ ∧ _))

/-- One for a pass of a live CPU that reaches the waiting task. -/
def reaches (p : TaskRef) (d : ℕ) (w : World) : Turn → ℕ
  | .call ⟨k, .dispatch cpu⟩ =>
    if 0 ≤ cpu ∧ flowCpuLive w cpu.toNat = true ∧ placeOf p d w ≠ 0 ∧ Reaches p d w k cpu.toNat then 1
    else 0
  | _ => 0

section TierWalk

theorem tierScan_visited_le (k : Kernel) (cpu q visits slots : ℕ) (w : World) :
    (tierScan k cpu q visits slots (w.dsq q)).visited.length ≤ visitsOn w k cpu q := by
  unfold tierScan
  split
  · exact Nat.zero_le _
  · exact Scan.visited_length_le_refused _ _ _

theorem tierScan_hit_le (k : Kernel) (cpu q visits slots : ℕ) (l : List Entry) :
    (tierScan k cpu q visits slots l).hit.toList.length ≤ 1 := by
  rcases (tierScan k cpu q visits slots l).hit with _ | e
  · exact Nat.zero_le _
  · exact le_rfl

/-- The walk of a tier with a slot and the visits for a task it may run serves the tier. -/
theorem tierScan_serves {visits slots : ℕ} {l : List Entry} (hslots : slots ≠ 0)
    (hok : flowMoveCandidate k d cpu p = true) (hp : Ranked.wait (Entry.isOf p) l ≠ 0)
    (hv : visits + Ranked.wait (Entry.isOf p) l ≤ flowDispatchMaxVisit) :
    servedIn p d (scanVisits d (tierScan k cpu d visits slots l)) = true := by
  have hmine (e : Entry) (he : Entry.isOf p e = true) : flowMoveCandidate k d cpu e.task = true := by
    rwa [of_decide_eq_true he]
  have hwalk : tierScan k cpu d visits slots l = tierWalk k cpu d visits l := if_neg hslots
  rw [hwalk]
  obtain ⟨a, ha, hmy⟩ := Ranked.exists_mem_take hp
    (show _ ≤ flowDispatchMaxVisit - visits by omega)
  have hhit : (tierWalk k cpu d visits l).hit ≠ none := fun hnone => by
    rw [tierWalk, Scan.hit_eq_none_iff] at hnone
    have hno : flowMoveCandidate k d cpu a.task = false := hnone a ha
    rw [hmine a hmy] at hno
    cases hno
  obtain ⟨e, he⟩ := Option.ne_none_iff_exists'.mp hhit
  unfold servedIn scanVisits
  rw [he, Bool.and_eq_true_iff, List.any_eq_true, List.all_eq_true]
  refine ⟨⟨⟨d, e, true⟩, by simp, by simp⟩, fun v hv => ?_⟩
  rcases List.mem_append.mp hv with hv | hv
  · obtain ⟨u, hu, rfl⟩ := mem_refused.mp hv
    have hno : flowMoveCandidate k d cpu u.task = false :=
      Scan.not_ok_of_mem_seen (fun e : Entry => flowMoveCandidate k d cpu e.task) _ _ u hu
    have hother : Entry.isOf p u = false := by
      rw [← Bool.not_eq_true]
      intro hu
      rw [hmine u hu] at hno
      cases hno
    simp [hother]
  · obtain rfl : v = ⟨d, e, true⟩ := by simpa using hv
    simp

end TierWalk

section Pass

theorem scanVisits_dsq {q : ℕ} {r : Scan Entry} : ∀ v ∈ scanVisits q r, v.dsq = q := by
  intro v hv
  rcases List.mem_append.mp hv with hv | hv
  · obtain ⟨u, -, rfl⟩ := mem_refused.mp hv
    rfl
  · obtain ⟨e, -, rfl⟩ := List.mem_map.mp hv
    rfl

theorem visitsOf_scanVisits_ne {q : ℕ} {r : Scan Entry} (h : q ≠ d) :
    visitsOf d (scanVisits q r) = [] :=
  visitsOf_eq_nil fun v hv hvd => h ((scanVisits_dsq v hv).symm.trans hvd)

theorem tiersBefore_own (w : World) (cpu : ℕ) : tiersBefore w cpu (flowLocalDsq cpu) = [] := by
  simp [tiersBefore, tierQueues]

theorem tiersBefore_node (hc : cpu < flowMaxCpus) :
    tiersBefore w cpu (flowNodeDsq (flowDispatchNode w cpu)) = [flowLocalDsq cpu] := by
  obtain ⟨hln, -, -, -⟩ := dsq_kinds hc (flowDispatchNode_lt w cpu)
  simp [tiersBefore, tierQueues, hln.ne]

theorem tiersBefore_machine (hc : cpu < flowMaxCpus) :
    tiersBefore w cpu flowMachineDsq
      = [flowLocalDsq cpu, flowNodeDsq (flowDispatchNode w cpu)] := by
  obtain ⟨hln, hnm, -, -⟩ := dsq_kinds hc (flowDispatchNode_lt w cpu)
  simp [tiersBefore, tierQueues, hnm.ne, (hln.trans hnm).ne]

/-- A pass comes to each tier with a slot less for each tier before it, and with all visits but those
it may spend there. -/
theorem tierLog_at (k : Kernel) (hc : cpu < flowMaxCpus) (hd : d ∈ tierQueues w cpu) :
    ∃ visits slots, visitsOf d (tierLog w k cpu)
        = scanVisits d (tierScan k cpu d visits slots (w.dsq d))
      ∧ visits ≤ ((tiersBefore w cpu d).map (visitsOn w k cpu)).sum
      ∧ k.nrSlots ≤ slots + (tiersBefore w cpu d).length := by
  obtain ⟨hln, hnm, -, -⟩ := dsq_kinds hc (flowDispatchNode_lt w cpu)
  have hself {r : Scan Entry} : visitsOf d (scanVisits d r) = scanVisits d r :=
    visitsOf_eq_self scanVisits_dsq
  have hown := tierScan_visited_le k cpu (flowLocalDsq cpu) 0 k.nrSlots w
  have hownHit := tierScan_hit_le k cpu (flowLocalDsq cpu) 0 k.nrSlots (w.dsq (flowLocalDsq cpu))
  change (tierWalks w k cpu).own.visited.length ≤ _ at hown
  change (tierWalks w k cpu).own.hit.toList.length ≤ 1 at hownHit
  unfold tierLog
  rw [visitsOf_append, visitsOf_append]
  rcases List.mem_cons.mp hd with rfl | hd
  · rw [hself, visitsOf_scanVisits_ne (by omega), visitsOf_scanVisits_ne (by omega),
      List.append_nil, List.append_nil, tiersBefore_own]
    exact ⟨0, k.nrSlots, rfl, Nat.zero_le _, Nat.le_add_right _ _⟩
  rcases List.mem_pair.mp hd with rfl | rfl
  · rw [hself, visitsOf_scanVisits_ne (by omega), visitsOf_scanVisits_ne (by omega),
      List.nil_append, List.append_nil, tiersBefore_node hc]
    refine ⟨(tierWalks w k cpu).own.visited.length, _, rfl, ?_, ?_⟩
    · simpa using hown
    · show k.nrSlots ≤ k.nrSlots - (tierWalks w k cpu).own.hit.toList.length + 1
      omega
  · rw [hself, visitsOf_scanVisits_ne (by omega), visitsOf_scanVisits_ne (by omega),
      List.nil_append, tiersBefore_machine hc]
    have hnode := tierScan_visited_le k cpu (flowNodeDsq (flowDispatchNode w cpu))
      (tierWalks w k cpu).own.visited.length
      (k.nrSlots - (tierWalks w k cpu).own.hit.toList.length) w
    have hnodeHit := tierScan_hit_le k cpu (flowNodeDsq (flowDispatchNode w cpu))
      (tierWalks w k cpu).own.visited.length
      (k.nrSlots - (tierWalks w k cpu).own.hit.toList.length)
      (w.dsq (flowNodeDsq (flowDispatchNode w cpu)))
    change (tierWalks w k cpu).node.visited.length ≤ _ at hnode
    change (tierWalks w k cpu).node.hit.toList.length ≤ 1 at hnodeHit
    refine ⟨_, _, rfl, ?_, ?_⟩
    · show (tierWalks w k cpu).own.visited.length + (tierWalks w k cpu).node.visited.length ≤ _
      rw [List.map_cons, List.map_singleton, List.sum_cons, List.sum_singleton]
      omega
    · show k.nrSlots ≤ k.nrSlots - (tierWalks w k cpu).own.hit.toList.length
        - (tierWalks w k cpu).node.hit.toList.length + 2
      omega

/-- A pass that reaches a waiting task serves its tier. -/
theorem Reaches.served (h : Reaches p d w k cpu) (hl : flowCpuLive w cpu = true)
    (hp : placeOf p d w ≠ 0) : servedIn p d (flowDispatchPass w k cpu true).log = true := by
  obtain ⟨hd, hok, hslots, hv⟩ := h
  obtain ⟨visits, slots, hlog, hvisits, hleft⟩ := tierLog_at k (flowCpuLive_iff.mp hl).2 hd
  obtain ⟨rest, hpass, hrest⟩ := (flowDispatchPass_tiers (k := k) hl true).log
  have hnone : visitsOf d rest = [] := visitsOf_eq_nil fun v hv hvd => hrest v hv (hvd ▸ hd)
  rw [← servedIn_visitsOf, hpass, visitsOf_append, hnone, List.append_nil, hlog]
  unfold placeOf at hp hv
  exact tierScan_serves (by omega) hok hp (by omega)

theorem reaches_le_serves (p : TaskRef) (d : ℕ) (w : World) (t : Turn) :
    reaches p d w t ≤ serves p d w t := by
  cases t with
  | call c =>
    obtain ⟨k, op⟩ := c
    cases op with
    | dispatch cpu =>
      show (if 0 ≤ cpu ∧ flowCpuLive w cpu.toNat = true ∧ placeOf p d w ≠ 0
          ∧ Reaches p d w k cpu.toNat then 1 else 0)
        ≤ if placeOf p d w ≠ 0 ∧ servedIn p d (flowDispatchPass w k cpu true).log then 1 else 0
      split
      · rename_i h
        obtain ⟨h0, hl, hp, hreach⟩ := h
        obtain ⟨c, rfl⟩ : ∃ c : ℕ, cpu = c := ⟨cpu.toNat, by omega⟩
        rw [Int.toNat_natCast] at hl hreach
        rw [if_pos ⟨hp, hreach.served hl hp⟩]
      · exact Nat.zero_le _
    | _ => exact le_rfl
  | _ => exact le_rfl

end Pass

section Runs

/-- Over a run that does not enqueue the task again, the passes that reach it, of whatever CPUs, are
no more than its place at the start and the earlier newcomers, less its place at the end. -/
theorem run_reaches (base : UInt64) (w : World) (ts : List Turn) (p : TaskRef) (d : ℕ)
    (hlt : d < scxDsqLocalOn) (hord : Ordered base (w.dsq d))
    (h : core.Along (Waiting base p d) w ts) :
    placeOf p d (core.exec w ts) + core.total (reaches p d) w ts
      ≤ placeOf p d w + core.total (earlier p d) w ts :=
  (Nat.add_le_add_left (core.total_le (reaches_le_serves p d) w ts) _).trans
    (run_serves base w ts p d hlt hord h)

/-- Tasks wait for CPU 0 in every tier. -/
def World.backlogged : World :=
  (((World.boot 2 1 fun _ => 0).setDsq (flowLocalDsq 0) [⟨1, 5⟩, ⟨2, 7⟩]).setDsq (flowNodeDsq 0)
    [⟨3, 5⟩]).setDsq flowMachineDsq [⟨4, 6⟩, ⟨5, 8⟩]

theorem backlogged_ready : Ordered 0 (World.backlogged.dsq flowMachineDsq) where
  near e he := by
    rcases List.mem_pair.mp he with rfl | rfl
    · decide
    · decide
  sorted := List.pairwise_pair.mpr (by decide)

/-- Two passes move the two tasks of the machine queue, behind the tiers before it. -/
theorem run_reaches_backlogged :
    let pass : Turn := .call ⟨Kernel.plain 1000, .dispatch 0⟩
    core.total (reaches 5 flowMachineDsq) World.backlogged [pass, pass] = 2
      ∧ placeOf 5 flowMachineDsq (core.exec World.backlogged [pass, pass])
          + core.total (reaches 5 flowMachineDsq) World.backlogged [pass, pass]
        ≤ placeOf 5 flowMachineDsq World.backlogged
          + core.total (earlier 5 flowMachineDsq) World.backlogged [pass, pass] :=
  ⟨by decide +kernel, run_reaches 0 World.backlogged _ 5 flowMachineDsq (by decide) backlogged_ready
    ⟨⟨rfl, fun _ h => absurd h List.not_mem_nil⟩, ⟨rfl, fun _ h => absurd h List.not_mem_nil⟩,
      trivial⟩⟩

end Runs

end ScxFlow
