import ScxFlow.Proofs.EnqueuePaths
import ScxFlow.Proofs.QueueOrder
import ScxFlow.Proofs.Wait

/-!
# The journey of a task

The scheduler is there to take a task from its wakeup to a CPU.  Seen from the task that is three
places: away from the queues, waiting in a queue the scheduler made, or ready on one CPU.  Every turn
moves a task along by one step at most, and onto a CPU only where that CPU is live and in its mask
(`run_journey`); no terminal queue ever holds a task that was not let onto it (`run_affinity`).
-/

namespace ScxFlow

variable {w : World} {k : Kernel} {p : TaskRef}

/-- Where a task is. -/
inductive Place
  | away
  | waiting (dsq : ℕ)
  | ready (cpu : ℕ)

/-- A CPU takes a task: it is live and in the task's mask. -/
def Takes (w : World) (k : Kernel) (p : TaskRef) (cpu : ℕ) : Prop :=
  flowCpuLive w cpu = true ∧ (k.task p).cpusPtr cpu = true

/-- The queue holds rejected tasks, or a CPU that takes the task drains it. -/
def Serves (w : World) (k : Kernel) (p : TaskRef) (dsq : ℕ) : Prop :=
  dsq = flowOverflowDsq ∨ ∃ cpu, Takes w k p cpu ∧ dsq ∈ tierQueues w cpu

/-- The steps of a task. -/
inductive Moves (w : World) (p : TaskRef) : Turn → Place → Place → Prop
  | stays {t : Turn} (a : Place) : Moves w p t a a
  | queued {k : Kernel} {enqFlags : UInt64} {dsq : ℕ} (hs : Serves w k p dsq) :
    Moves w p (.call ⟨k, .enqueue p enqFlags⟩) .away (.waiting dsq)
  | sent {k : Kernel} {enqFlags : UInt64} {cpu : ℕ} (ht : Takes w k p cpu) :
    Moves w p (.call ⟨k, .enqueue p enqFlags⟩) .away (.ready cpu)
  | moved {k : Kernel} {cpu dsq : ℕ} (ht : Takes w k p cpu) :
    Moves w p (.call ⟨k, .dispatch cpu⟩) (.waiting dsq) (.ready cpu)
  | picked {cpu c : ℕ} (hc : scxLocalOn c = scxLocalOn cpu) :
    Moves w p (.pick c) (.ready cpu) .away
  | removed {dsq : ℕ} {a : Place} : Moves w p (.dequeue p dsq) a .away

/-- The queues hold a task where it is. -/
def At (w : World) (p : TaskRef) : Place → Prop
  | .away => places w p = 0
  | .waiting dsq => dsq < scxDsqLocalOn ∧ WaitsIn p w dsq
  | .ready cpu => cpu < flowMaxCpus ∧ WaitsIn p w (scxLocalOn cpu)

section Lands

theorem scxLocalOn_eq {cpu : ℕ} (h : cpu < flowMaxCpus) : scxLocalOn cpu = scxDsqLocalOn + cpu := by
  have hor := Nat.two_pow_add_eq_or_of_lt (i := 62) (b := cpu) (h.trans (by decide)) 3
  exact hor.symm

theorem scxLocalOn_inj {c c' : ℕ} (hc : c < flowMaxCpus) (hc' : c' < flowMaxCpus)
    (h : scxLocalOn c = scxLocalOn c') : c = c' := by
  rw [scxLocalOn_eq hc, scxLocalOn_eq hc'] at h
  omega

theorem takes_of_flowCpuOk {cpu : ℤ} (h : flowCpuOk w (k.task p) cpu = true) :
    Takes w k p cpu.toNat := by
  unfold flowCpuOk at h
  split_ifs at h with h0 hn hm
  exact ⟨flowCpuLive_iff.mpr ⟨by omega, by omega⟩, h⟩

theorem insertedTo_of_isSetup {e : Effect} (h : e.isSetup = true) : e.insertedTo = none := by
  cases e with
  | insertVtime d key flags => cases h
  | insert d flags => cases h
  | _ => rfl

theorem flowEnqueuePlace_lands {e : FlowEnqueueTail} {x : Effect} {dsq : ℕ}
    (hok : flowCpuOk w (k.task p) e.cpu = true) (hx : x ∈ (flowEnqueuePlace w e).2)
    (hd : x.insertedTo = some dsq) :
    Serves w k p dsq ∨ ∃ cpu, Takes w k p cpu ∧ dsq = scxLocalOn cpu := by
  have htakes := takes_of_flowCpuOk hok
  unfold flowEnqueuePlace at hx
  split_ifs at hx with hidle hbypass
  · simp only [List.mem_cons, List.not_mem_nil, or_false] at hx
    rcases hx with rfl | rfl | rfl | rfl
    · exact Or.inr ⟨_, htakes, (Option.some.inj hd).symm⟩
    · cases hd
    · cases hd
    · cases hd
  · obtain ⟨q, hq, heq⟩ := flowTierInsertHint_queue w e.cpu e.vtime e.now
      (nrQueued w (flowLocalDsq e.cpu.toNat)) (nodeQueued w e.cpu.toNat)
    rw [List.mem_singleton.mp hx, heq] at hd
    exact Or.inl (Or.inr ⟨_, htakes, Option.some.inj hd ▸ hq⟩)
  · obtain ⟨q, hq, heq⟩ := flowTierInsert_queue w e.cpu e.vtime e.now
    rw [List.mem_singleton.mp hx, heq] at hd
    exact Or.inl (Or.inr ⟨_, htakes, Option.some.inj hd ▸ hq⟩)

/-- An enqueue inserts into the reject queue, or for a CPU that takes the task. -/
theorem flowEnqueue_lands {enqFlags : UInt64} {x : Effect} {dsq : ℕ}
    (hx : x ∈ (flowEnqueue w k p enqFlags).eff) (hd : x.insertedTo = some dsq) :
    Serves w k p dsq ∨ ∃ cpu, Takes w k p cpu ∧ dsq = scxLocalOn cpu := by
  have hkicks {es : List Effect} (hes : ∀ e ∈ es, e.isKick = true) (hmem : x ∈ es) : False := by
    rw [insertedTo_of_isKick (hes x hmem)] at hd
    cases hd
  obtain ⟨pre, rest, heff, hpre, hends⟩ := flowEnqueue_ends w k p enqFlags
  rw [heff] at hx
  rcases List.mem_append.mp hx with hx | hx
  · rw [insertedTo_of_isSetup (hpre x hx)] at hd
    cases hd
  generalize openTail w k p enqFlags = tail at hends
  generalize (flowEnqueue w k p enqFlags).ctx = ctx at hends
  cases hends with
  | exiting cpu hxit hok =>
    rcases List.mem_append.mp hx with hx | hx
    · rw [List.mem_singleton.mp hx] at hd
      exact Or.inr ⟨_, takes_of_flowCpuOk hok, (Option.some.inj hd).symm⟩
    · refine (hkicks (fun e he => ?_) hx).elim
      split at he
      · rcases List.mem_pair.mp he with rfl | rfl
        · rfl
        · rfl
      · exact absurd he List.not_mem_nil
  | rejected c hc key flags =>
    rcases List.mem_append.mp hx with hx | hx
    · rcases List.mem_pair.mp hx with rfl | rfl
      · cases hd
      · exact Or.inl (Or.inl (Option.some.inj hd).symm)
    · exact (hkicks (flowKickIdleAllowed_isKick w k p _ _) hx).elim
  | rejoined vtime hok =>
    rcases List.mem_append.mp hx with hx | hx
    · obtain ⟨q, hq, heq⟩ := flowTierInsert_queue w (enqueueTarget w k p) vtime k.now
      rw [heq] at hx
      rcases List.mem_pair.mp hx with rfl | rfl
      · exact Or.inl (Or.inr ⟨_, takes_of_flowCpuOk hok, Option.some.inj hd ▸ hq⟩)
      · cases hd
    · exact (hkicks (flowKickIdleAllowed_isKick w k p _ _) hx).elim
  | placed t e hcpu hok hnow helig =>
    rw [List.append_assoc] at hx
    rcases List.mem_append.mp hx with hx | hx
    · rw [List.mem_singleton.mp hx] at hd
      cases hd
    · rcases List.mem_append.mp hx with hx | hx
      · exact flowEnqueuePlace_lands hok hx hd
      · split at hx
        · exact absurd hx List.not_mem_nil
        · exact (hkicks (flowEnqueueKick_isKick w k p t e) hx).elim

end Lands

section Brings

/-- What a pass brings to the terminal queue of its CPU was let onto it. -/
theorem passed_takes {cpu : ℕ} {Q : List ℕ} {s : Pass} {e : Entry}
    (hl : flowCpuLive w cpu = true) (h : PassOk w k cpu Q s) (he : e ∈ arrivals s.log) :
    Takes w k e.task cpu := by
  obtain ⟨v, hv, rfl⟩ := List.mem_map.mp he
  obtain ⟨hv, hmoved⟩ := mem_movesOf.mp hv
  have hvisit : v ∈ visitsOf v.dsq s.log := List.mem_filter.mpr ⟨hv, by simp⟩
  have hwalk := h.queue v.dsq (h.within v hv).2
  generalize visitsOf v.dsq s.log = visits at hvisit hwalk
  have hcandidate : flowMoveCandidate k v.dsq cpu v.entry.task = true := by
    cases hwalk with
    | kept l rest hq ha =>
      obtain ⟨e', -, heq⟩ := mem_refused.mp hvisit
      rw [heq] at hmoved
      cases hmoved
    | moved pre e post hq ha hok hpre =>
      rcases List.mem_append.mp hvisit with hvisit | hvisit
      · obtain ⟨e', -, heq⟩ := mem_refused.mp hvisit
        rw [heq] at hmoved
        cases hmoved
      · rwa [List.mem_singleton.mp hvisit]
  refine ⟨hl, ?_⟩
  unfold flowMoveCandidate flowMaskOk at hcandidate
  split_ifs at hcandidate with h0 hmask
  simpa [h0] using hmask

/-- A pass leaves the terminal queues of the other CPUs alone. -/
theorem Stages.terminal {cpu d : ℕ} {s s' : Pass} (h : Stages k cpu s s')
    (hd : scxDsqLocalOn ≤ d) (hne : d ≠ scxLocalOn cpu) : s'.world.dsq d = s.world.dsq d := by
  induction h with
  | refl => rfl
  | tail _ hstage ih =>
    obtain ⟨dsq, new, hlt, hs⟩ := hstage
    exact (hs.others d (by omega) hne).trans ih

end Brings

section TerminalQueues

theorem Serves.lt {dsq : ℕ} (h : Serves w k p dsq) : dsq < scxDsqLocalOn := by
  rcases h with rfl | ⟨cpu, ⟨hl, -⟩, hq⟩
  · decide
  · have hkinds := dsq_kinds (flowCpuLive_iff.mp hl).2 (flowDispatchNode_lt w cpu)
    simp only [tierQueues, List.mem_cons, List.not_mem_nil, or_false] at hq
    rcases hq with rfl | rfl | rfl
    · omega
    · omega
    · omega

theorem setDsq_ne {d dsq : ℕ} (h : d ≠ dsq) (l : List Entry) :
    (w.setDsq dsq l).dsq d = w.dsq d := by
  show Function.update w.dsq dsq l d = w.dsq d
  rw [Function.update_of_ne h]

theorem Takes.lt {cpu : ℕ} (h : Takes w k p cpu) : cpu < flowMaxCpus := (flowCpuLive_iff.mp h.1).2

theorem perform_mem {e : Effect} {dsq d : ℕ} {x : Entry} (hd : e.insertedTo = some dsq)
    (hx : x ∈ (w.perform k p e).dsq d) : x ∈ w.dsq d ∨ d = dsq ∧ x.task = p := by
  by_cases hq : d = dsq
  · subst hq
    cases e with
    | insertVtime q key flags =>
      obtain rfl : q = d := Option.some.inj hd
      rw [World.perform, setDsq_self, insertByKey_eq_place, Ranked.mem_place] at hx
      rcases hx with rfl | hx
      · exact Or.inr ⟨rfl, rfl⟩
      · exact Or.inl hx
    | insert q flags =>
      obtain rfl : q = d := Option.some.inj hd
      rw [World.perform, setDsq_self] at hx
      rcases List.mem_append.mp hx with hx | hx
      · exact Or.inl hx
      · exact Or.inr ⟨rfl, congrArg Entry.task (List.mem_singleton.mp hx)⟩
    | _ => cases hd
  · exact Or.inl (by rwa [perform_dsq_other hd hq] at hx)

/-- A turn lets an entry onto the terminal queue of a CPU: the enqueue of its task or a pass of the
CPU, which takes the task. -/
def LetsOn (w : World) (t : Turn) (e : Entry) (cpu : ℕ) : Prop :=
  ∃ k op, t = .call ⟨k, op⟩ ∧ Takes w k e.task cpu
    ∧ ((∃ enqFlags, op = .enqueue e.task enqFlags) ∨ op = .dispatch cpu)

theorem turn_lets {cpu : ℕ} (hc : cpu < flowMaxCpus) (t : Turn) {e : Entry}
    (he : e ∈ (core.step w t).dsq (scxLocalOn cpu)) :
    e ∈ w.dsq (scxLocalOn cpu) ∨ LetsOn w t e cpu := by
  generalize hw : core.step w t = w' at he
  cases hw ▸ turn_queues w t with
  | kept ht h => exact Or.inl (by rwa [h] at he)
  | @joined k p enqFlags _ x dsq hx hd hins h =>
    rw [h] at he
    rcases perform_mem hd he with he | ⟨rfl, rfl⟩
    · exact Or.inl he
    · rcases flowEnqueue_lands hx hd with hs | ⟨c, ht, heq⟩
      · exact absurd rfl (scxLocalOn_ne hs.lt)
      · obtain rfl := scxLocalOn_inj hc ht.lt heq
        exact Or.inr ⟨k, _, rfl, ht, Or.inl ⟨enqFlags, rfl⟩⟩
  | @passed k c _ s hl hs hok hlog h =>
    obtain ⟨Q, hok⟩ := hok
    rw [h] at he
    by_cases hcpu : scxLocalOn cpu = scxLocalOn c
    · obtain rfl := scxLocalOn_inj hc (flowCpuLive_iff.mp hl).2 hcpu
      rw [hok.terminal] at he
      rcases List.mem_append.mp he with he | he
      · exact Or.inl he
      · exact Or.inr ⟨k, _, rfl, passed_takes hl hok he, Or.inr rfl⟩
    · rw [hs.terminal (scxLocalOn_ge cpu) hcpu] at he
      exact Or.inl he
  | picked c =>
    left
    by_cases hcpu : scxLocalOn cpu = scxLocalOn c
    · rw [hcpu] at he ⊢
      rw [World.pick, setDsq_self] at he
      exact List.mem_of_mem_tail he
    · rwa [World.pick, setDsq_ne hcpu] at he
  | dequeued q dsq =>
    left
    by_cases hcpu : scxLocalOn cpu = dsq
    · rw [hcpu] at he ⊢
      rw [World.dequeue, setDsq_self] at he
      exact List.mem_of_mem_eraseP he
    · rwa [World.dequeue, setDsq_ne hcpu] at he

/-- Over every run, what waits on the terminal queue of a CPU was there at the start, or a turn of
the run let it on, when the CPU was live and in the task's mask. -/
theorem run_affinity (w : World) (ts : List Turn) (cpu : ℕ) (hc : cpu < flowMaxCpus) :
    ∀ e ∈ (core.exec w ts).dsq (scxLocalOn cpu), e ∈ w.dsq (scxLocalOn cpu)
      ∨ ∃ pre t post, ts = pre ++ t :: post ∧ LetsOn (core.exec w pre) t e cpu := by
  induction ts using List.reverseRecOn with
  | nil => exact fun e he => Or.inl he
  | append_singleton ts t ih =>
    intro e he
    rw [core.exec_snoc] at he
    rcases turn_lets hc t he with he | hlets
    · rcases ih e he with he | ⟨pre, t', post, rfl, hlets⟩
      · exact Or.inl he
      · exact Or.inr ⟨pre, t', post ++ [t], by simp, hlets⟩
    · exact Or.inr ⟨ts, t, [], rfl, hlets⟩

/-- The terminal queue ends with the task a pass let onto it. -/
theorem run_affinity_wakeBehind : 0 < flowMaxCpus
    ∧ (core.exec World.attached wakeBehind).dsq (scxLocalOn 0) = [⟨1, 0⟩]
    ∧ ∀ e ∈ (core.exec World.attached wakeBehind).dsq (scxLocalOn 0),
      e ∈ World.attached.dsq (scxLocalOn 0) ∨ ∃ pre t post, wakeBehind = pre ++ t :: post
        ∧ LetsOn (core.exec World.attached pre) t e 0 :=
  have hc : 0 < flowMaxCpus := Nat.succ_pos _
  ⟨hc, by decide +kernel, run_affinity World.attached wakeBehind 0 hc⟩

end TerminalQueues

section TaskSteps

/-- Entries of the task in one queue. -/
def countIn (w : World) (p : TaskRef) (dsq : ℕ) : ℕ := (w.dsq dsq).countP (Entry.isOf p)

/-- Where a task is depends on where its entries are alone. -/
theorem At.congr {w' : World} {a : Place} (h : At w p a)
    (hcount : ∀ d, countIn w' p d = countIn w p d) : At w' p a := by
  have hfun : (fun d => (w'.dsq d).countP (Entry.isOf p))
      = fun d => (w.dsq d).countP (Entry.isOf p) := funext hcount
  have hwaits {d : ℕ} (hd : WaitsIn p w d) : WaitsIn p w' d :=
    ⟨(hcount d).trans hd.1, fun d' hd' => (hcount d').trans (hd.2 d' hd')⟩
  cases a with
  | away =>
    show Shelf.held w'.dsq _ = 0
    rw [Shelf.held, hfun]
    exact h
  | waiting dsq => exact ⟨h.1, hwaits h.2⟩
  | ready cpu => exact ⟨h.1, hwaits h.2⟩

theorem WaitsIn.places_eq {d : ℕ} (hf : Shelf.Finite w.dsq) (h : WaitsIn p w d) :
    places w p = 1 := by
  have hupd := Shelf.held_update (P := Entry.isOf p) hf d []
  have hzero : Shelf.held (Function.update w.dsq d []) (Entry.isOf p) = 0 := by
    refine Shelf.held_eq_zero_of_forall fun d' e he => ?_
    by_cases hd : d' = d
    · subst hd
      rw [Function.update_self] at he
      exact absurd he List.not_mem_nil
    · rw [Function.update_of_ne hd] at he
      rw [← Bool.not_eq_true]
      exact List.countP_eq_zero.mp (h.2 d' hd) e he
  have hone := h.1
  rw [hzero, List.countP_nil] at hupd
  unfold places
  omega

theorem waitsIn_of_countIn {d : ℕ} (hf : Shelf.Finite w.dsq) (h : places w p = 1)
    (hd : countIn w p d ≠ 0) : WaitsIn p w d := by
  obtain ⟨d', -, hw⟩ := waitsIn_of_places hf h
  by_cases hdd : d = d'
  · exact hdd ▸ hw
  · exact absurd (hw.2 d hdd) hd

theorem At.places_eq {a : Place} (hf : Shelf.Finite w.dsq) (h : At w p a) :
    a = .away ∧ places w p = 0 ∨ places w p = 1 := by
  cases a with
  | away => exact Or.inl ⟨rfl, h⟩
  | waiting dsq => exact Or.inr (h.2.places_eq hf)
  | ready cpu => exact Or.inr (h.2.places_eq hf)

theorem At.countIn_away (hf : Shelf.Finite w.dsq) (h : At w p .away) (d : ℕ) : countIn w p d = 0 :=
  Nat.le_zero.mp ((Shelf.countP_le_held hf d).trans (show places w p = 0 from h).le)

/-- A pass moves a task that waits onto its CPU, or leaves it where it is. -/
theorem pass_journey {cpu : ℕ} {Q : List ℕ} {s : Pass} {a : Place} {w' : World}
    (hl : flowCpuLive w cpu = true) (hs : Stages k cpu (Pass.start w k.nrSlots) s)
    (hok : PassOk w k cpu Q s) (hw' : w'.dsq = s.world.dsq) (hf : Shelf.Finite w'.dsq)
    (hplaces : places w' p = places w p) (hfin : Shelf.Finite w.dsq) (h : At w p a) :
    ∃ b, At w' p b ∧ Moves w p (.call ⟨k, .dispatch cpu⟩) a b := by
  have hcpu := (flowCpuLive_iff.mp hl).2
  have hterminal : countIn w' p (scxLocalOn cpu)
      = countIn w p (scxLocalOn cpu) + (arrivals s.log).countP (Entry.isOf p) := by
    unfold countIn
    rw [hw', hok.terminal, List.countP_append]
  cases a with
  | away => exact ⟨.away, hplaces.trans h, .stays .away⟩
  | waiting d =>
    obtain ⟨hd, hwaits⟩ := h
    have hone := hplaces.trans (hwaits.places_eq hfin)
    by_cases hmoved : countIn w' p (scxLocalOn cpu) = 0
    · refine ⟨.waiting d, ⟨hd, ?_⟩, .stays _⟩
      obtain ⟨d', -, hd'⟩ := waitsIn_of_places hf hone
      have hne : d' ≠ scxLocalOn cpu := by
        rintro rfl
        exact one_ne_zero (hd'.1.symm.trans hmoved)
      have hsub := (hok.queue d' hne).sublist
      rw [← hw'] at hsub
      have hle := hsub.countP_le (p := Entry.isOf p)
      by_cases hdd : d' = d
      · exact hdd ▸ hd'
      · have hzero := hwaits.2 d' hdd
        have hpos := hd'.1
        omega
    · refine ⟨.ready cpu, ⟨hcpu, waitsIn_of_countIn hf hone hmoved⟩, .moved ?_⟩
      have hbefore : countIn w p (scxLocalOn cpu) = 0 := hwaits.2 _ (scxLocalOn_ne hd).symm
      have hpos : 0 < (arrivals s.log).countP (Entry.isOf p) := by omega
      obtain ⟨e, he, hp⟩ := List.countP_pos_iff.mp hpos
      have htask : e.task = p := of_decide_eq_true hp
      exact htask ▸ passed_takes hl hok he
  | ready c =>
    obtain ⟨hc, hwaits⟩ := h
    have hone := hplaces.trans (hwaits.places_eq hfin)
    refine ⟨.ready c, ⟨hc, waitsIn_of_countIn hf hone ?_⟩, .stays _⟩
    have hbefore : countIn w p (scxLocalOn c) = 1 := hwaits.1
    by_cases hcc : scxLocalOn c = scxLocalOn cpu
    · rw [hcc] at hbefore ⊢
      omega
    · have hkeep : countIn w' p (scxLocalOn c) = countIn w p (scxLocalOn c) := by
        unfold countIn
        rw [hw', hs.terminal (scxLocalOn_ge c) hcc]
        rfl
      omega

theorem countIn_pick (c d : ℕ) : countIn (w.pick c) p d
    + (if d = scxLocalOn c then ((w.dsq (scxLocalOn c)).take 1).countP (Entry.isOf p) else 0)
      = countIn w p d := by
  unfold countIn World.pick
  by_cases hd : d = scxLocalOn c
  · subst hd
    rw [setDsq_self, if_pos rfl]
    exact countP_tail (Entry.isOf p) (w.dsq (scxLocalOn c))
  · rw [setDsq_ne hd, if_neg hd, Nat.add_zero]

theorem countIn_dequeue (q : TaskRef) (dsq d : ℕ) : countIn (w.dequeue q dsq) p d
    + (if d = dsq ∧ q = p ∧ (w.dsq dsq).any (Entry.isOf p) then 1 else 0) = countIn w p d := by
  unfold countIn World.dequeue
  by_cases hd : d = dsq
  · subst hd
    rw [setDsq_self]
    simpa using countP_dequeue (p := p) q (w.dsq d)
  · rw [setDsq_ne hd, if_neg fun h => hd h.1, Nat.add_zero]

theorem countIn_perform {k : Kernel} {q : TaskRef} {e : Effect} {dsq : ℕ}
    (hd : e.insertedTo = some dsq) (d : ℕ) :
    countIn (w.perform k q e) p d = countIn w p d + if d = dsq ∧ q = p then 1 else 0 := by
  have hone (key : UInt64) :
      [(⟨q, key⟩ : Entry)].countP (Entry.isOf p) = if q = p then 1 else 0 := by
    simp [Entry.isOf, List.countP_cons]
  unfold countIn
  by_cases hq : d = dsq
  · subst hq
    cases e with
    | insertVtime c key flags =>
      obtain rfl : c = d := Option.some.inj hd
      rw [World.perform, setDsq_self, insertByKey_countP, hone]
      simp
    | insert c flags =>
      obtain rfl : c = d := Option.some.inj hd
      rw [World.perform, setDsq_self, List.countP_append, hone]
      simp
    | _ => cases hd
  · rw [perform_dsq_other hd hq, if_neg fun h => hq h.1, Nat.add_zero]

/-- An enqueue takes a task that is away to where it lands, and no other task anywhere. -/
theorem join_journey {q : TaskRef} {enqFlags : UInt64} {x : Effect} {dsq : ℕ} {a : Place}
    {w' : World} (hx : x ∈ (flowEnqueue w k q enqFlags).eff) (hd : x.insertedTo = some dsq)
    (hw' : w'.dsq = (w.perform k q x).dsq) (hf : Shelf.Finite w'.dsq) (h : At w p a)
    (hone : q = p → a = .away ∧ places w' p = 1) :
    ∃ b, At w' p b ∧ Moves w p (.call ⟨k, .enqueue q enqFlags⟩) a b := by
  have hcount (d : ℕ) : countIn w' p d = countIn w p d + if d = dsq ∧ q = p then 1 else 0 := by
    rw [← countIn_perform hd d]
    unfold countIn
    rw [hw']
  by_cases hq : q = p
  · obtain ⟨rfl, hplaces⟩ := hone hq
    subst hq
    have hwaits : WaitsIn q w' dsq := by
      refine waitsIn_of_countIn hf hplaces ?_
      rw [hcount, if_pos ⟨rfl, rfl⟩]
      exact Nat.succ_ne_zero _
    rcases flowEnqueue_lands hx hd with hs | ⟨c, ht, rfl⟩
    · exact ⟨.waiting dsq, ⟨hs.lt, hwaits⟩, .queued hs⟩
    · exact ⟨.ready c, ⟨ht.lt, hwaits⟩, .sent ht⟩
  · refine ⟨a, h.congr fun d => ?_, .stays a⟩
    rw [hcount, if_neg fun h => hq h.2, Nat.add_zero]

/-- A pick takes the task it runs off the queue of its CPU. -/
theorem pick_journey {c : ℕ} {a : Place} (hf : Shelf.Finite w.dsq) (h : At w p a)
    (hplaces : places (w.pick c) p
      + ((w.dsq (scxLocalOn c)).take 1).countP (Entry.isOf p) = places w p) :
    ∃ b, At (w.pick c) p b ∧ Moves w p (.pick c) a b := by
  have hcount := countIn_pick (w := w) (p := p) c
  by_cases hhead : ((w.dsq (scxLocalOn c)).take 1).countP (Entry.isOf p) = 0
  · refine ⟨a, h.congr fun d => ?_, .stays a⟩
    have hd := hcount d
    rw [hhead, ite_self, Nat.add_zero] at hd
    exact hd
  have hin : countIn w p (scxLocalOn c) ≠ 0 := by
    have hc := hcount (scxLocalOn c)
    rw [if_pos rfl] at hc
    omega
  cases a with
  | away => exact absurd (h.countIn_away hf _) hin
  | waiting d => exact absurd (h.2.2 _ (scxLocalOn_ne h.1).symm) hin
  | ready cpu =>
    have hone := h.2.places_eq hf
    have hcpu : scxLocalOn c = scxLocalOn cpu := by
      by_contra hne
      exact hin (h.2.2 _ hne)
    refine ⟨.away, ?_, .picked hcpu⟩
    show places (w.pick c) p = 0
    omega

/-- A dequeue takes its own task off, and no other. -/
theorem dequeue_journey {q : TaskRef} {dsq : ℕ} {a : Place} (hf : Shelf.Finite w.dsq)
    (h : At w p a) (hplaces : places (w.dequeue q dsq) p
      + (if q = p ∧ (w.dsq dsq).any (Entry.isOf p) then 1 else 0) = places w p) :
    ∃ b, At (w.dequeue q dsq) p b ∧ Moves w p (.dequeue q dsq) a b := by
  by_cases hq : q = p ∧ (w.dsq dsq).any (Entry.isOf p)
  · rw [if_pos hq] at hplaces
    obtain ⟨rfl, -⟩ := hq
    refine ⟨.away, ?_, .removed⟩
    show places (w.dequeue q dsq) q = 0
    rcases h.places_eq hf with ⟨-, hp⟩ | hp
    · omega
    · omega
  · refine ⟨a, h.congr fun d => ?_, .stays a⟩
    have hd := countIn_dequeue (w := w) (p := p) q dsq d
    rwa [if_neg fun h => hq h.2, Nat.add_zero] at hd

/-- Every turn takes a task one step at most. -/
theorem turn_journey {t : Turn} {a : Place} (hf : Shelf.Finite w.dsq) (h : At w p a)
    (hj : places w p + joins p w t ≤ leaves p w t + 1) :
    ∃ b, At (core.step w t) p b ∧ Moves w p t a b := by
  obtain ⟨hf', hplaces⟩ := turn_places (p := p) t hf
  generalize hw : core.step w t = w' at hf' hplaces ⊢
  cases hw ▸ turn_queues w t with
  | kept ht hq => exact ⟨a, h.congr fun d => by unfold countIn; rw [hq], .stays a⟩
  | @joined k q enqFlags _ x dsq hx hd hins hq =>
    refine join_journey hx hd hq hf' h fun heq => ?_
    have hjoins : joins p w (.call ⟨k, .enqueue q enqFlags⟩) = 1 := if_pos heq
    have hleaves : leaves p w (.call ⟨k, .enqueue q enqFlags⟩) = 0 := rfl
    rcases h.places_eq hf with ⟨ha, hp⟩ | hp
    · exact ⟨ha, by omega⟩
    · omega
  | @passed k c _ s hl hs hok hlog hq =>
    obtain ⟨Q, hok⟩ := hok
    exact pass_journey hl hs hok hq hf' (by simpa [joins, leaves] using hplaces) hf h
  | picked c => exact pick_journey hf h hplaces
  | dequeued q dsq => exact dequeue_journey hf h hplaces

end TaskSteps

section Runs

/-- Over the run the task goes from one place to the other, one step a turn. -/
inductive Travels (p : TaskRef) : World → List Turn → Place → Place → Prop
  | arrived {w : World} {a : Place} (ha : At w p a) : Travels p w [] a a
  | turned {w : World} {t : Turn} {ts : List Turn} {a b c : Place} (ha : At w p a)
    (ht : Moves w p t a b) (hts : Travels p (core.step w t) ts b c) : Travels p w (t :: ts) a c

theorem travels {made : List ℕ} (ts : List Turn) (hs : Shelved made w) {a : Place} (h : At w p a)
    (honce : ∀ pre ∈ ts.inits,
      places w p + core.total (joins p) w pre ≤ core.total (leaves p) w pre + 1) :
    ∃ b, Travels p w ts a b := by
  induction ts generalizing w a with
  | nil => exact ⟨a, .arrived h⟩
  | cons t ts ih =>
    have hfirst := honce [t] (by simp [List.inits])
    obtain ⟨b, hb, hmoves⟩ := turn_journey hs.finite h (by simpa [Machine.total] using hfirst)
    have hplaces := (turn_places (p := p) t hs.finite).2
    obtain ⟨c, hc⟩ := ih (turn_shelved w t hs) hb fun pre hpre => by
      have hcons := honce (t :: pre) (by simpa [List.mem_inits] using hpre)
      rw [Machine.total, Machine.total] at hcons
      omega
    exact ⟨c, .turned h hmoves hc⟩

/-- From the attach on, a task the kernel enqueues only after taking it off goes through the
scheduler one step at a time: from away to a queue that a CPU which takes it drains, or to the reject
queue, or at once onto a CPU that takes it; from a queue onto the CPU whose pass lets it; and back
away when that CPU picks it or the kernel takes it off. -/
theorem run_journey (nrCpuIds nrNodeIds : ℕ) (topoNode : ℕ → ℕ) (v : InitView) (w : World)
    (made : List ℕ) (hinit : flowInit (World.boot nrCpuIds nrNodeIds topoNode) v = .ok (w, made))
    (p : TaskRef) (ts : List Turn) (h : EnqueuedOnce p w ts) : ∃ b, Travels p w ts .away b := by
  have hzero : places w p = 0 := by
    refine Shelf.held_eq_zero_of_forall fun d e he => ?_
    rw [flowInit_dsq hinit] at he
    exact absurd he List.not_mem_nil
  refine travels ts (flowInit_shelved (fun _ => rfl) hinit) (a := .away) hzero fun pre hpre => ?_
  rw [hzero, Nat.zero_add]
  exact h pre hpre

theorem run_journey_wakeBehind : ∃ b, Travels 1 World.attached wakeBehind .away b :=
  run_journey 0 0 (fun cpu => cpu) ⟨2, fun _ => 0⟩ World.attached (initQueues 2 2) rfl 1
    wakeBehind (by decide)

end Runs

end ScxFlow
