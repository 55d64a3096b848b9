import ScxFlow.Proofs.QueueOrder
import ScxFlow.Proofs.TierWalks

/-!
# How long a task waits

A pass that moves an entry off a queue and does not pass over a waiting task brings that task one
place closer to its head, and only an earlier key puts the task one place back.  So a task is passed
over no more often than its place and the earlier newcomers allow (`run_serves`).  A pass of the CPU
itself serves its local queue whenever it has a slot and may run the task (`run_local_wait`).
-/

namespace ScxFlow

variable {w : World} {k : Kernel} {p : TaskRef} {d : ℕ}

/-- The place the task waits at in the queue, counted from one, and zero where it does not. -/
def placeOf (p : TaskRef) (d : ℕ) (w : World) : ℕ := Ranked.wait (Entry.isOf p) (w.dsq d)

/-- The visits move an entry off the queue and pass over none of the task's. -/
def servedIn (p : TaskRef) (d : ℕ) (log : List Visit) : Bool :=
  (log.any fun v => v.moved && decide (v.dsq = d))
    && log.all fun v => !decide (v.dsq = d) || !Entry.isOf p v.entry || v.moved

/-- One for a pass that serves the queue in front of the waiting task. -/
def serves (p : TaskRef) (d : ℕ) (w : World) : Turn → ℕ
  | .call ⟨k, .dispatch cpu⟩ =>
    if placeOf p d w ≠ 0 ∧ servedIn p d (flowDispatchPass w k cpu true).log then 1 else 0
  | _ => 0

/-- One for an enqueue into the queue with a key before the waiting task's. -/
def earlier (p : TaskRef) (d : ℕ) (w : World) (t : Turn) : ℕ :=
  if (joinKeys d w t).any fun key =>
    (w.dsq d).any fun e => Entry.isOf p e && flowTimeBefore key e.key then 1 else 0

section OneTurn

/-- A turn that does not enqueue the task puts it back for an earlier key alone. -/
theorem turn_place {base : UInt64} (hlt : d < scxDsqLocalOn) {t : Turn}
    (hp : joins p w t = 0) (hnear : JoinsNear base d w t) (hord : Ordered base (w.dsq d)) :
    placeOf p d (core.step w t) ≤ placeOf p d w + earlier p d w t := by
  unfold placeOf
  generalize hl : (core.step w t).dsq d = l
  cases hl ▸ turn_dsq (w := w) hlt t with
  | left hnone h => exact (Ranked.wait_sublist h).trans (Nat.le_add_right _ _)
  | @placed k q enqFlags key hkey =>
    have hq : Entry.isOf p ⟨q, key⟩ = false := by
      refine decide_eq_false fun hqp => ?_
      rw [joins, if_pos hqp] at hp
      exact one_ne_zero hp
    have hall : ∀ x ∈ (⟨q, key⟩ : Entry) :: w.dsq d, KeyNear base x.key :=
      List.forall_mem_cons.mpr ⟨hnear key hkey, hord.near⟩
    have hplace := Ranked.wait_place hq hord.sorted (byRank_near hall)
    rw [insertByKey_eq_place]
    refine hplace.trans (Nat.add_le_add_left ?_ _)
    unfold earlier
    split
    · rename_i hany
      rw [if_pos (List.any_eq_true.mpr ⟨key, hkey, hany⟩)]
    · exact Nat.zero_le _

/-- A walk that moves an entry off a queue and passes over none of the task's moves it up. -/
theorem Walked.place_lt {cpu : ℕ} {before after : List Entry} {new : List Visit}
    (h : Walked k cpu d before after new) (hs : servedIn p d new = true)
    (hp : Ranked.wait (Entry.isOf p) before ≠ 0) :
    Ranked.wait (Entry.isOf p) after + 1 ≤ Ranked.wait (Entry.isOf p) before := by
  unfold servedIn at hs
  obtain ⟨hmoved, hpassed⟩ := Bool.and_eq_true_iff.mp hs
  rw [List.any_eq_true] at hmoved
  rw [List.all_eq_true] at hpassed
  cases h with
  | kept l rest hq ha =>
    obtain ⟨v, hv, hm⟩ := hmoved
    obtain ⟨e, -, rfl⟩ := mem_refused.mp hv
    exact absurd hm (by simp)
  | moved pre e post hq ha hok hpre =>
    have hnone : ∀ u ∈ pre, Entry.isOf p u = false := fun u hu => by
      have hu' := hpassed ⟨d, u, false⟩
        (List.mem_append_left _ (mem_refused.mpr ⟨u, hu, rfl⟩))
      simpa using hu'
    rw [ha, hq]
    refine Ranked.wait_remove hnone ?_
    rw [hq, Ranked.wait_append] at hp
    split at hp
    · exact absurd (Ranked.wait_eq_zero.mpr hnone) hp
    · assumption

theorem servedIn_visitsOf (log : List Visit) : servedIn p d (visitsOf d log) = servedIn p d log := by
  unfold servedIn visitsOf
  rw [List.any_filter, List.all_filter]
  congr 1
  · congr 1
    funext v
    cases decide (v.dsq = d) <;> simp
  · congr 1
    funext v
    cases decide (v.dsq = d) <;> simp

theorem flowDispatchPass_closed_log {cpu : ℤ} (h : cpu < 0 ∨ flowCpuLive w cpu.toNat = false) :
    (flowDispatchPass w k cpu true).log = [] := by
  unfold flowDispatchPass
  by_cases h0 : cpu < 0
  · rw [if_pos h0]
    rfl
  · rw [if_neg h0, h.resolve_left h0]
    rfl

/-- A pass that serves the queue moves the waiting task up. -/
theorem turn_serves (hlt : d < scxDsqLocalOn) {t : Turn} (hs : serves p d w t ≠ 0) :
    serves p d w t = 1 ∧ placeOf p d (core.step w t) + 1 ≤ placeOf p d w := by
  cases t with
  | call c =>
    obtain ⟨k, op⟩ := c
    cases op with
    | dispatch cpu =>
      unfold serves at hs ⊢
      simp only [ite_ne_right_iff] at hs
      obtain ⟨⟨hplace, hserved⟩, -⟩ := hs
      refine ⟨if_pos ⟨hplace, hserved⟩, ?_⟩
      by_cases hclosed : cpu < 0 ∨ flowCpuLive w cpu.toNat = false
      · rw [flowDispatchPass_closed_log hclosed] at hserved
        cases hserved
      · rw [not_or, Bool.not_eq_false] at hclosed
        obtain ⟨c, rfl⟩ : ∃ c : ℕ, cpu = c := ⟨cpu.toNat, by omega⟩
        rw [Int.toNat_natCast] at hclosed
        obtain ⟨s, -, ⟨Q, hok⟩, hlog, hdsq⟩ := flowDispatch_stages (k := k) hclosed.2
        have hd : (core.step w (.call ⟨k, .dispatch c⟩)).dsq d = s.world.dsq d := congrFun hdsq d
        rw [← hlog, ← servedIn_visitsOf] at hserved
        unfold placeOf at hplace ⊢
        rw [hd]
        exact (hok.queue d (scxLocalOn_ne hlt)).place_lt hserved hplace
    | _ => exact absurd rfl hs
  | _ => exact absurd rfl hs

end OneTurn

section Runs

/-- What a run keeps to for the bound on a task's wait in a queue: it does not enqueue the task
again, and its keys for the queue are near. -/
def Waiting (base : UInt64) (p : TaskRef) (d : ℕ) (w : World) (t : Turn) : Prop :=
  joins p w t = 0 ∧ JoinsNear base d w t

theorem turn_progress {base : UInt64} (hlt : d < scxDsqLocalOn) {t : Turn}
    (ht : Waiting base p d w t) (hord : Ordered base (w.dsq d)) :
    placeOf p d (core.step w t) + serves p d w t ≤ placeOf p d w + earlier p d w t := by
  by_cases hs : serves p d w t = 0
  · rw [hs]
    exact turn_place hlt ht.1 ht.2 hord
  · obtain ⟨hone, hplace⟩ := turn_serves hlt hs
    omega

/-- Over a run that does not enqueue the task again, the passes that serve its queue in front of it
are no more than its place at the start and the earlier newcomers, less its place at the end. -/
theorem run_serves (base : UInt64) (w : World) (ts : List Turn) (p : TaskRef) (d : ℕ)
    (hlt : d < scxDsqLocalOn) (hord : Ordered base (w.dsq d))
    (h : core.Along (Waiting base p d) w ts) :
    placeOf p d (core.exec w ts) + core.total (serves p d) w ts
      ≤ placeOf p d w + core.total (earlier p d) w ts :=
  Machine.amortized (I := fun w : World => Ordered base (w.dsq d)) (φ := placeOf p d)
    (fun _ _ ht hi => turn_ordered hlt ht.2 hi) (fun _ _ ht hi _ => turn_progress hlt ht hi) h hord
    le_rfl

/-- Two tasks wait for CPU 0. -/
def World.twoLocal : World :=
  (World.boot 2 1 fun _ => 0).setDsq (flowLocalDsq 0) [⟨1, 5⟩, ⟨2, 7⟩]

theorem twoLocal_ready : Ordered 0 (World.twoLocal.dsq (flowLocalDsq 0)) where
  near e he := by
    rcases List.mem_pair.mp he with rfl | rfl
    · decide
    · decide
  sorted := List.pairwise_pair.mpr (by decide)

theorem run_serves_twoLocal :
    placeOf 2 (flowLocalDsq 0) (core.exec World.twoLocal [.call ⟨Kernel.plain 1000, .dispatch 0⟩])
        + core.total (serves 2 (flowLocalDsq 0)) World.twoLocal
          [.call ⟨Kernel.plain 1000, .dispatch 0⟩]
      ≤ placeOf 2 (flowLocalDsq 0) World.twoLocal
        + core.total (earlier 2 (flowLocalDsq 0)) World.twoLocal
          [.call ⟨Kernel.plain 1000, .dispatch 0⟩] :=
  run_serves 0 World.twoLocal [.call ⟨Kernel.plain 1000, .dispatch 0⟩] 2 (flowLocalDsq 0)
    (by decide) twoLocal_ready ⟨⟨rfl, fun _ h => absurd h List.not_mem_nil⟩, trivial⟩

end Runs

section OwnPasses

/-- One for a pass of this CPU. -/
def passes (cpu : ℕ) (_ : World) : Turn → ℕ
  | .call ⟨_, .dispatch c⟩ => if c = cpu then 1 else 0
  | _ => 0

theorem passes_cases (cpu : ℕ) (w : World) (t : Turn) :
    passes cpu w t = 0 ∨ passes cpu w t = 1 ∧ ∃ k, t = .call ⟨k, .dispatch cpu⟩ := by
  cases t with
  | call c =>
    obtain ⟨k, op⟩ := c
    cases op with
    | dispatch c =>
      by_cases hc : c = cpu
      · exact Or.inr ⟨if_pos hc, k, by rw [hc]⟩
      · exact Or.inl (if_neg hc)
    | _ => exact Or.inl rfl
  | _ => exact Or.inl rfl

/-- Every pass of the CPU is offered a slot and may have the task. -/
def Offered (cpu : ℕ) (p : TaskRef) : Turn → Prop
  | .call ⟨k, .dispatch c⟩ =>
    c = cpu → k.nrSlots ≠ 0 ∧ flowMoveCandidate k (flowLocalDsq cpu) cpu p = true
  | _ => True

/-- A walk with enough budget that accepts a waiting element takes one in front of it or itself. -/
theorem wait_walk {ok P : Entry → Bool} (hok : ∀ e, P e = true → ok e = true) :
    ∀ (n : ℕ) (l : List Entry), Ranked.wait P l ≠ 0 → Ranked.wait P l ≤ n →
      Ranked.wait P (Scan.walk ok n l).left + 1 ≤ Ranked.wait P l
  | 0, l, h0, hn => by omega
  | n + 1, [], h0, _ => absurd rfl h0
  | n + 1, e :: l, h0, hn => by
    have hcons := Ranked.wait_cons (P := P) e l
    rcases h : ok e with _ | _
    · have he : P e = false := by
        rw [← Bool.not_eq_true]
        exact fun hP => by simp [hok e hP] at h
      rw [he, Bool.false_or] at hcons
      split at hcons
      · rename_i hl
        have ih := wait_walk hok n l (bne_iff_ne.mp hl) (by omega)
        have hleft := Ranked.wait_cons (P := P) e
          ((Scan.walk ok n l).seen ++ (Scan.walk ok n l).rest)
        rw [Scan.walk_cons_of_not ok h]
        show Ranked.wait P (e :: ((Scan.walk ok n l).seen ++ (Scan.walk ok n l).rest)) + 1 ≤ _
        unfold Scan.left at ih
        rw [he, Bool.false_or] at hleft
        split at hleft
        · omega
        · omega
      · exact absurd hcons h0
    · rw [Scan.walk_cons_of_ok ok h]
      show Ranked.wait P l + 1 ≤ _
      split at hcons
      · omega
      · exact absurd hcons h0

/-- A pass of the CPU with a slot for a task it may run, waiting within the visits, moves it up. -/
theorem dispatch_place {cpu : ℕ} (hl : flowCpuLive w cpu = true) (hslots : k.nrSlots ≠ 0)
    (hok : flowMoveCandidate k (flowLocalDsq cpu) cpu p = true)
    (hp : placeOf p (flowLocalDsq cpu) w ≠ 0)
    (hv : placeOf p (flowLocalDsq cpu) w ≤ flowDispatchMaxVisit) :
    placeOf p (flowLocalDsq cpu) (core.step w (.call ⟨k, .dispatch cpu⟩)) + 1
      ≤ placeOf p (flowLocalDsq cpu) w := by
  have hown : (core.step w (.call ⟨k, .dispatch cpu⟩)).dsq (flowLocalDsq cpu)
      = (Scan.walk (fun e => flowMoveCandidate k (flowLocalDsq cpu) cpu e.task)
        flowDispatchMaxVisit (w.dsq (flowLocalDsq cpu))).left := by
    refine (flowDispatchPass_tiers (k := k) hl true).own.trans ?_
    show (tierScan k cpu (flowLocalDsq cpu) 0 k.nrSlots (w.dsq (flowLocalDsq cpu))).left = _
    rw [tierScan, if_neg hslots]
    rfl
  unfold placeOf at hp hv ⊢
  rw [hown]
  refine wait_walk (fun e he => ?_) _ _ hp hv
  rwa [of_decide_eq_true he]

/-- A task that is gone from a queue stays away until it is enqueued. -/
theorem turn_gone {base : UInt64} (hlt : d < scxDsqLocalOn) {t : Turn}
    (ht : Waiting base p d w t) (hord : Ordered base (w.dsq d)) (h : placeOf p d w = 0) :
    placeOf p d (core.step w t) = 0 := by
  have hearlier : earlier p d w t = 0 := by
    refine if_neg fun hany => ?_
    obtain ⟨key, -, hkey⟩ := List.any_eq_true.mp hany
    obtain ⟨e, he, hboth⟩ := List.any_eq_true.mp hkey
    have hnot := Ranked.wait_eq_zero.mp h e he
    rw [(Bool.and_eq_true_iff.mp hboth).1] at hnot
    cases hnot
  have hplace := turn_place hlt ht.1 ht.2 hord
  omega

/-- What a run keeps to for the bound on the passes of a CPU: besides, every pass may serve. -/
def Served (base : UInt64) (p : TaskRef) (cpu : ℕ) (w : World) (t : Turn) : Prop :=
  Waiting base p (flowLocalDsq cpu) w t ∧ Offered cpu p t

/-- What such a run keeps. -/
structure LocalReady (base : UInt64) (cpu : ℕ) (w : World) : Prop where
  live : flowCpuLive w cpu = true
  ordered : Ordered base (w.dsq (flowLocalDsq cpu))

theorem localDsq_created {cpu : ℕ} (hl : flowCpuLive w cpu = true) :
    flowLocalDsq cpu < scxDsqLocalOn :=
  (flowLocalDsq_lt (flowCpuLive_iff.mp hl).2).trans (by decide)

theorem turn_localReady {base : UInt64} {cpu : ℕ} (w : World) (t : Turn)
    (ht : Served base p cpu w t) (h : LocalReady base cpu w) :
    LocalReady base cpu (core.step w t) where
  live := by
    have hcpus : (core.step w t).nrCpuIds = w.nrCpuIds := (Prod.mk.inj (turn_counts w t)).1
    rw [flowCpuLive_iff, hcpus]
    exact flowCpuLive_iff.mp h.live
  ordered := turn_ordered (localDsq_created h.live) ht.1.2 h.ordered

/-- A pass while the task waits, and no other turn. -/
def waitedPass (p : TaskRef) (cpu : ℕ) (w : World) (t : Turn) : ℕ :=
  if placeOf p (flowLocalDsq cpu) w ≠ 0 then passes cpu w t else 0

theorem turn_waitedPass {base : UInt64} {cpu : ℕ} (w : World) (t : Turn)
    (ht : Served base p cpu w t) (h : LocalReady base cpu w)
    (hv : placeOf p (flowLocalDsq cpu) w ≤ flowDispatchMaxVisit) :
    placeOf p (flowLocalDsq cpu) (core.step w t) + waitedPass p cpu w t
      ≤ placeOf p (flowLocalDsq cpu) w + earlier p (flowLocalDsq cpu) w t := by
  have hplace := turn_place (localDsq_created h.live) ht.1.1 ht.1.2 h.ordered
  by_cases hpass : waitedPass p cpu w t = 0
  · rwa [hpass]
  · unfold waitedPass at hpass ⊢
    obtain ⟨hp, hpass⟩ := ite_ne_right_iff.mp hpass
    obtain ⟨hone, k, rfl⟩ := (passes_cases cpu w t).resolve_left hpass
    obtain ⟨hslots, hok⟩ := ht.2 rfl
    have hup := dispatch_place h.live hslots hok hp hv
    rw [if_pos hp, hone]
    omega

/-- While the task waits at the end of a run it has waited all along. -/
theorem waits_along {base : UInt64} {cpu : ℕ} {ts : List Turn} (hready : LocalReady base cpu w)
    (h : core.Along (Served base p cpu) w ts)
    (hwaits : placeOf p (flowLocalDsq cpu) (core.exec w ts) ≠ 0) :
    core.Along (fun w _ => placeOf p (flowLocalDsq cpu) w ≠ 0) w ts := by
  rw [Machine.along_iff]
  intro pre t post hts hgone
  rw [hts, Machine.along_append] at h
  rw [hts, Machine.exec_append] at hwaits
  have hmid := Machine.exec_along (I := LocalReady base cpu) turn_localReady h.1 hready
  refine hwaits (Machine.exec_along
    (I := fun w => LocalReady base cpu w ∧ placeOf p (flowLocalDsq cpu) w = 0)
    (fun w t ht hi => ⟨turn_localReady w t ht hi.1, ?_⟩) h.2 ⟨hmid, hgone⟩).2
  exact turn_gone (localDsq_created hi.1.live) ht.1 hi.1.ordered hi.2

/-- From a place within the visits of a pass, a task that may run on the CPU waits for no more
passes of the CPU than its place and the earlier newcomers. -/
theorem run_local_wait (base : UInt64) (w : World) (ts : List Turn) (p : TaskRef) (cpu : ℕ)
    (hready : LocalReady base cpu w) (h : core.Along (Served base p cpu) w ts)
    (hv : placeOf p (flowLocalDsq cpu) w + core.total (earlier p (flowLocalDsq cpu)) w ts
      ≤ flowDispatchMaxVisit)
    (hwaits : placeOf p (flowLocalDsq cpu) (core.exec w ts) ≠ 0) :
    placeOf p (flowLocalDsq cpu) (core.exec w ts) + core.total (passes cpu) w ts
      ≤ placeOf p (flowLocalDsq cpu) w + core.total (earlier p (flowLocalDsq cpu)) w ts := by
  have hpasses : core.total (waitedPass p cpu) w ts = core.total (passes cpu) w ts :=
    core.total_congr (fun _ _ hp => if_pos hp) (waits_along hready h hwaits)
  rw [← hpasses]
  exact Machine.amortized (I := LocalReady base cpu) (φ := placeOf p (flowLocalDsq cpu))
    turn_localReady turn_waitedPass h hready hv

/-- The pass moves the first of the two, and the second waits at the head. -/
theorem run_local_wait_twoLocal :
    placeOf 2 (flowLocalDsq 0) (core.exec World.twoLocal [.call ⟨Kernel.plain 1000, .dispatch 0⟩])
        + core.total (passes 0) World.twoLocal [.call ⟨Kernel.plain 1000, .dispatch 0⟩]
      ≤ placeOf 2 (flowLocalDsq 0) World.twoLocal
        + core.total (earlier 2 (flowLocalDsq 0)) World.twoLocal
          [.call ⟨Kernel.plain 1000, .dispatch 0⟩] :=
  run_local_wait 0 World.twoLocal [.call ⟨Kernel.plain 1000, .dispatch 0⟩] 2 0
    ⟨rfl, twoLocal_ready⟩
    ⟨⟨⟨rfl, fun _ h => absurd h List.not_mem_nil⟩, fun _ => ⟨by decide, rfl⟩⟩, trivial⟩
    (by decide) (by decide)

end OwnPasses

end ScxFlow
