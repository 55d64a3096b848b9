import ScxFlow.Proofs.TierWalks

/-!
# The order of the tier moves

A pass does not merge its tiers.  It takes from the local queue, then from the node queue, then from
the machine queue, at most once from each and the earliest runnable key of each, and appends what it
takes in this order.  The first task it appends has the earliest key of all three exactly when no
later tier holds an earlier runnable one [flowDispatch_tierOrder].
-/

namespace ScxFlow

variable {w : World} {k : Kernel} {cpu : ℕ}

/-- The moves of a pass off the three tiers, in order. -/
def tierTaken (w : World) (cpu : ℕ) (l : List Visit) : List Visit :=
  (movesOf l).filter fun v => decide (v.dsq ∈ tierQueues w cpu)

/-- The CPU may run the task of `e`, and the kernel moves it off `dsq`. -/
def Runnable (k : Kernel) (cpu dsq : ℕ) (e : Entry) : Prop :=
  (k.task e.task).cpusPtr cpu = true ∧ k.dsqMove dsq e.task = true

/-- The pass drains `d` before `d'`. -/
def Drains (w : World) (cpu d d' : ℕ) : Prop := [d, d'].Sublist (tierQueues w cpu)

/-- No tier holds a runnable task whose key is before a runnable one of a tier drained earlier. -/
def TiersInOrder (w : World) (k : Kernel) (cpu : ℕ) : Prop :=
  ∀ d d', Drains w cpu d d' → ∀ u ∈ w.dsq d, ∀ u' ∈ w.dsq d',
    Runnable k cpu d u → Runnable k cpu d' u' → flowTimeBefore u'.key u.key = false

/-- How a pass `s` from `w` has drained its tiers. -/
structure TierOrder (w : World) (k : Kernel) (cpu : ℕ) (s : Pass) : Prop where
  /-- At most one move off each tier, in the order of the tiers. -/
  order : ((tierTaken w cpu s.log).map Visit.dsq).Sublist (tierQueues w cpu)
  terminal : ∃ rest, s.world.dsq (scxLocalOn cpu) = w.dsq (scxLocalOn cpu)
    ++ (tierTaken w cpu s.log).map (fun v => ⟨v.entry.task, 0⟩) ++ rest
  runnable : ∀ v ∈ tierTaken w cpu s.log, v.entry ∈ w.dsq v.dsq ∧ Runnable k cpu v.dsq v.entry
  /-- Each has the earliest runnable key of its own tier. -/
  own : ∀ v ∈ tierTaken w cpu s.log, ∀ u ∈ w.dsq v.dsq, Runnable k cpu v.dsq u →
    flowTimeBefore u.key v.entry.key = false
  /-- The first has the earliest of all exactly when no tier drained later holds an earlier one. -/
  first : ∀ v, (tierTaken w cpu s.log).head? = some v →
    ((∀ d ∈ tierQueues w cpu, ∀ u ∈ w.dsq d, Runnable k cpu d u →
        flowTimeBefore u.key v.entry.key = false)
      ↔ ∀ d, Drains w cpu v.dsq d → ∀ u ∈ w.dsq d, Runnable k cpu d u →
        flowTimeBefore u.key v.entry.key = false)
  /-- Tiers in order are drained in the order of their keys. -/
  merged : TiersInOrder w k cpu →
    (tierTaken w cpu s.log).Pairwise (fun a b => flowTimeBefore b.entry.key a.entry.key = false)
    ∧ ∀ v, (tierTaken w cpu s.log).head? = some v → ∀ d ∈ tierQueues w cpu, ∀ u ∈ w.dsq d,
      Runnable k cpu d u → flowTimeBefore u.key v.entry.key = false

section Took

/-- What one walk took. -/
def scanTaken (dsq : ℕ) (r : Scan Entry) : List Visit := r.hit.toList.map (⟨dsq, ·, true⟩)

@[simp] theorem movesOf_scanVisits (dsq : ℕ) (r : Scan Entry) :
    movesOf (scanVisits dsq r) = scanTaken dsq r := by
  unfold scanVisits scanTaken
  rw [movesOf_append, movesOf_refused, List.nil_append]
  cases r.hit <;> rfl

theorem tierTaken_of_tiers {s : Pass} (h : PassTiers w k cpu s) :
    tierTaken w cpu s.log = scanTaken (flowLocalDsq cpu) (tierWalks w k cpu).own
      ++ scanTaken (flowNodeDsq (flowDispatchNode w cpu)) (tierWalks w k cpu).node
      ++ scanTaken flowMachineDsq (tierWalks w k cpu).machine := by
  obtain ⟨rest, hlog, hrest⟩ := h.log
  have hkeep (dsq : ℕ) (hd : dsq ∈ tierQueues w cpu) (r : Scan Entry) :
      (scanTaken dsq r).filter (fun v => decide (v.dsq ∈ tierQueues w cpu)) = scanTaken dsq r := by
    rw [List.filter_eq_self]
    intro v hv
    obtain ⟨e, -, rfl⟩ := List.mem_map.mp hv
    simpa using hd
  have hdrop : (movesOf rest).filter (fun v => decide (v.dsq ∈ tierQueues w cpu)) = [] := by
    rw [List.filter_eq_nil_iff]
    intro v hv
    simpa using hrest v (mem_movesOf.mp hv).1
  rw [tierTaken, hlog, tierLog]
  simp only [movesOf_append, movesOf_scanVisits, List.filter_append, hdrop, List.append_nil]
  rw [hkeep _ (by simp [tierQueues]), hkeep _ (by simp [tierQueues]),
    hkeep _ (by simp [tierQueues])]

theorem mem_scanTaken {dsq : ℕ} {r : Scan Entry} {v : Visit} :
    v ∈ scanTaken dsq r ↔ ∃ e, r.hit = some e ∧ v = ⟨dsq, e, true⟩ := by
  simp [scanTaken, eq_comm]

/-- What a walk of a queue in key order takes is runnable and the earliest that is. -/
theorem tierScan_taken {dsq visits slots : ℕ} {l : List Entry} {e : Entry} (hsort : KeySorted l)
    (h : (tierScan k cpu dsq visits slots l).hit = some e) :
    e ∈ l ∧ Runnable k cpu dsq e
      ∧ ∀ u ∈ l, Runnable k cpu dsq u → flowTimeBefore u.key e.key = false := by
  obtain ⟨hok, hseen, -, -⟩ := tierScan_hit h
  have hparts := tierScan_left k cpu dsq visits slots l
  rw [h, Option.toList_some, List.append_assoc, List.singleton_append] at hparts
  refine ⟨by rw [← hparts]; simp, flowMoveCandidate_iff.mp hok, fun u hu hrun => ?_⟩
  rw [← hparts] at hu hsort
  rcases List.mem_append.mp hu with hu | hu
  · have hcand := flowMoveCandidate_iff.mpr hrun
    rw [hseen u hu] at hcand
    cases hcand
  · rcases List.mem_cons.mp hu with rfl | hu
    · exact flowTimeBefore_self _
    · rw [KeySorted, List.pairwise_append, List.pairwise_cons] at hsort
      exact hsort.2.1.1 u hu

end Took

section Order

theorem tierQueues_sorted (hc : cpu < flowMaxCpus) :
    (tierQueues w cpu).Pairwise (fun d d' => d < d') := by
  obtain ⟨hln, hnm, -, -⟩ := dsq_kinds hc (flowDispatchNode_lt w cpu)
  simp only [tierQueues, List.pairwise_cons, List.mem_cons, List.not_mem_nil, or_false]
  refine ⟨?_, ?_, by simp⟩
  · rintro d (rfl | rfl)
    · exact hln
    · exact hln.trans hnm
  · rintro d rfl
    exact hnm

theorem Drains.lt {d d' : ℕ} (hc : cpu < flowMaxCpus) (h : Drains w cpu d d') : d < d' :=
  List.pairwise_iff_forall_sublist.mp (tierQueues_sorted hc) h

theorem Drains.mem {d d' : ℕ} (h : Drains w cpu d d') : d ∈ tierQueues w cpu :=
  h.subset (by simp)

theorem drains_total {d d' : ℕ} (hd : d ∈ tierQueues w cpu) (hd' : d' ∈ tierQueues w cpu) :
    Drains w cpu d d' ∨ d = d' ∨ Drains w cpu d' d := by
  simp only [tierQueues, List.mem_cons, List.not_mem_nil, or_false] at hd hd'
  unfold Drains tierQueues
  rcases hd with rfl | rfl | rfl <;> rcases hd' with rfl | rfl | rfl
  all_goals simp

theorem not_runnable_of_refused {dsq : ℕ} {l : List Entry}
    (h : ∀ u ∈ l, flowMoveCandidate k dsq cpu u.task = false) :
    ∀ u ∈ l, ¬ Runnable k cpu dsq u := by
  intro u hu hrun
  have hcand := flowMoveCandidate_iff.mpr hrun
  rw [h u hu] at hcand
  cases hcand

/-- A tier drained before the first that yields a task held none to run. -/
theorem own_exhausted (hown : (tierWalks w k cpu).own.hit = none)
    (h : (tierWalks w k cpu).node.hit ≠ none ∨ (tierWalks w k cpu).machine.hit ≠ none) :
    ∀ u ∈ w.dsq (flowLocalDsq cpu), ¬ Runnable k cpu (flowLocalDsq cpu) u := by
  have hspare : k.nrSlots ≠ 0
      ∧ 0 + (tierWalks w k cpu).own.visited.length < flowDispatchMaxVisit := by
    rcases h with h | h
    · obtain ⟨e, he⟩ := Option.ne_none_iff_exists'.mp h
      obtain ⟨-, -, hslots, hv⟩ := tierScan_hit he
      exact ⟨fun h0 => hslots (by simp [h0]), by simpa [tierWalks] using hv⟩
    · obtain ⟨e, he⟩ := Option.ne_none_iff_exists'.mp h
      obtain ⟨-, -, hslots, hv⟩ := tierScan_hit he
      refine ⟨fun h0 => hslots (by simp [h0]), ?_⟩
      simp only [tierWalks] at hv ⊢
      omega
  exact not_runnable_of_refused (tierScan_none hown hspare.1 hspare.2)

theorem node_exhausted (hnode : (tierWalks w k cpu).node.hit = none)
    (h : (tierWalks w k cpu).machine.hit ≠ none) :
    ∀ u ∈ w.dsq (flowNodeDsq (flowDispatchNode w cpu)),
      ¬ Runnable k cpu (flowNodeDsq (flowDispatchNode w cpu)) u := by
  obtain ⟨e, he⟩ := Option.ne_none_iff_exists'.mp h
  obtain ⟨-, -, hslots, hv⟩ := tierScan_hit he
  exact not_runnable_of_refused (tierScan_none hnode (fun h0 => hslots (by simp [h0])) hv)

end Order

section Pass

/-- What is taken first has refused every task of the tiers drained before its own. -/
theorem head_exhausts (hc : cpu < flowMaxCpus) {s : Pass} (h : PassTiers w k cpu s) {v : Visit}
    (hv : (tierTaken w cpu s.log).head? = some v) {d : ℕ} (hd : Drains w cpu d v.dsq) :
    ∀ u ∈ w.dsq d, ¬ Runnable k cpu d u := by
  have hlt := hd.lt hc
  have hmem := hd.mem
  obtain ⟨hln, hnm, -, -⟩ := dsq_kinds hc (flowDispatchNode_lt w cpu)
  simp only [tierQueues, List.mem_cons, List.not_mem_nil, or_false] at hmem
  rw [tierTaken_of_tiers h] at hv
  rcases hown : (tierWalks w k cpu).own.hit with _ | e
  · rcases hnode : (tierWalks w k cpu).node.hit with _ | e
    · rcases hmach : (tierWalks w k cpu).machine.hit with _ | e
      · simp [scanTaken, hown, hnode, hmach] at hv
      · obtain rfl : (⟨flowMachineDsq, e, true⟩ : Visit) = v := by
          simpa [scanTaken, hown, hnode, hmach] using hv
        have hsome : (tierWalks w k cpu).machine.hit ≠ none := by simp [hmach]
        rcases hmem with rfl | rfl | rfl
        · exact own_exhausted hown (Or.inr hsome)
        · exact node_exhausted hnode hsome
        · exact absurd hlt (lt_irrefl _)
    · obtain rfl : (⟨flowNodeDsq (flowDispatchNode w cpu), e, true⟩ : Visit) = v := by
        simpa [scanTaken, hown, hnode] using hv
      rcases hmem with rfl | rfl | rfl
      · exact own_exhausted hown (Or.inl (by simp [hnode]))
      · exact absurd hlt (lt_irrefl _)
      · exact absurd hnm (not_lt.mpr (le_of_lt hlt))
  · obtain rfl : (⟨flowLocalDsq cpu, e, true⟩ : Visit) = v := by
      simpa [scanTaken, hown] using hv
    rcases hmem with rfl | rfl | rfl
    · exact absurd hlt (lt_irrefl _)
    · exact absurd hln (not_lt.mpr (le_of_lt hlt))
    · exact absurd (hln.trans hnm) (not_lt.mpr (le_of_lt hlt))

theorem taken_of_tiers (hsort : ∀ d ∈ tierQueues w cpu, KeySorted (w.dsq d)) {s : Pass}
    (h : PassTiers w k cpu s) : ∀ v ∈ tierTaken w cpu s.log, v.dsq ∈ tierQueues w cpu
      ∧ v.entry ∈ w.dsq v.dsq ∧ Runnable k cpu v.dsq v.entry
      ∧ ∀ u ∈ w.dsq v.dsq, Runnable k cpu v.dsq u → flowTimeBefore u.key v.entry.key = false := by
  intro v hv
  rw [tierTaken_of_tiers h, List.mem_append, List.mem_append, mem_scanTaken, mem_scanTaken,
    mem_scanTaken] at hv
  rcases hv with (⟨e, he, rfl⟩ | ⟨e, he, rfl⟩) | ⟨e, he, rfl⟩
  · exact ⟨by simp [tierQueues], tierScan_taken (hsort _ (by simp [tierQueues])) he⟩
  · exact ⟨by simp [tierQueues], tierScan_taken (hsort _ (by simp [tierQueues])) he⟩
  · exact ⟨by simp [tierQueues], tierScan_taken (hsort _ (by simp [tierQueues])) he⟩

theorem tierTaken_sublist {s : Pass} (h : PassTiers w k cpu s) :
    ((tierTaken w cpu s.log).map Visit.dsq).Sublist (tierQueues w cpu) := by
  have hone (dsq : ℕ) (r : Scan Entry) : ((scanTaken dsq r).map Visit.dsq).Sublist [dsq] := by
    unfold scanTaken
    cases r.hit <;> simp
  rw [tierTaken_of_tiers h, List.map_append, List.map_append]
  exact ((hone _ _).append (hone _ _)).append (hone _ _)

/-- How every pass over tiers in the order of the kernel drains them. -/
theorem flowDispatch_tierOrder (w : World) (k : Kernel) (cpu : ℕ)
    (hl : flowCpuLive w cpu = true) (hsort : ∀ d ∈ tierQueues w cpu, KeySorted (w.dsq d)) :
    TierOrder w k cpu (flowDispatchPass w k cpu true) := by
  have hc := (flowCpuLive_iff.mp hl).2
  have ht := flowDispatchPass_tiers (k := k) hl true
  have hterm := (flowDispatch_contract w k cpu hl).terminal
  have htaken := taken_of_tiers hsort ht
  have hsub := tierTaken_sublist ht
  have hexh := fun v hv d => head_exhausts hc ht (v := v) hv (d := d)
  have hlog := ht.log
  have hlist := tierTaken_of_tiers ht
  generalize flowDispatchPass w k cpu true = s at *
  have hfirst : ∀ v, (tierTaken w cpu s.log).head? = some v →
      ((∀ d ∈ tierQueues w cpu, ∀ u ∈ w.dsq d, Runnable k cpu d u →
          flowTimeBefore u.key v.entry.key = false)
        ↔ ∀ d, Drains w cpu v.dsq d → ∀ u ∈ w.dsq d, Runnable k cpu d u →
          flowTimeBefore u.key v.entry.key = false) := by
    intro v hv
    obtain ⟨hvq, -, -, hown⟩ := htaken v (List.mem_of_mem_head? hv)
    constructor
    · intro h d hd
      exact h d (hd.subset (by simp))
    · intro h d hd u hu hrun
      rcases drains_total hd hvq with hbefore | rfl | hafter
      · exact absurd hrun (hexh v hv d hbefore u hu)
      · exact hown u hu hrun
      · exact h d hafter u hu hrun
  constructor
  case order => exact hsub
  case terminal =>
    obtain ⟨rest, hl', -⟩ := hlog
    refine ⟨arrivals rest, ?_⟩
    rw [hterm, hl', arrivals_append, ← List.append_assoc]
    congr 2
    rw [← hl', hlist]
    simp [arrivals, tierLog]
  case runnable => exact fun v hv => ⟨(htaken v hv).2.1, (htaken v hv).2.2.1⟩
  case own => exact fun v hv => (htaken v hv).2.2.2
  case first => exact hfirst
  case merged =>
    intro hin
    constructor
    · rw [List.pairwise_iff_forall_sublist]
      intro a b hab
      obtain ⟨-, ha, hra, -⟩ := htaken a (hab.subset (by simp))
      obtain ⟨-, hb, hrb, -⟩ := htaken b (hab.subset (by simp))
      exact hin a.dsq b.dsq ((hab.map Visit.dsq).trans hsub) a.entry ha b.entry hb hra hrb
    · intro v hv
      obtain ⟨-, hm, hr, -⟩ := htaken v (List.mem_of_mem_head? hv)
      exact (hfirst v hv).mpr fun d hd u hu hrun => hin v.dsq d hd v.entry hm u hu hr hrun

/-- One task on the local queue of CPU 0, and one on its node with an earlier key. -/
def World.nodeEarlier : World :=
  ((World.boot 2 1 fun _ => 0).setDsq (flowLocalDsq 0) [⟨0, 9⟩]).setDsq (flowNodeDsq 0) [⟨1, 5⟩]

theorem nodeEarlier_sorted :
    ∀ d ∈ tierQueues World.nodeEarlier 0, KeySorted (World.nodeEarlier.dsq d) := by
  unfold KeySorted
  decide

/-- The local task is appended first, and the earlier one of the node behind it. -/
theorem flowDispatch_not_merged : flowCpuLive World.nodeEarlier 0 = true
    ∧ (∀ d ∈ tierQueues World.nodeEarlier 0, KeySorted (World.nodeEarlier.dsq d))
    ∧ tierTaken World.nodeEarlier 0
        (flowDispatchPass World.nodeEarlier (Kernel.plain 1000) (0 : ℕ) true).log
      = [⟨flowLocalDsq 0, ⟨0, 9⟩, true⟩, ⟨flowNodeDsq 0, ⟨1, 5⟩, true⟩]
    ∧ ⟨1, 5⟩ ∈ World.nodeEarlier.dsq (flowNodeDsq 0)
    ∧ flowNodeDsq 0 ∈ tierQueues World.nodeEarlier 0
    ∧ Runnable (Kernel.plain 1000) 0 (flowNodeDsq 0) ⟨1, 5⟩ ∧ flowTimeBefore 5 9 = true :=
  ⟨by decide, nodeEarlier_sorted, rfl, by decide, by decide, ⟨rfl, rfl⟩, by decide⟩

theorem flowDispatch_tierOrder_nodeEarlier : flowCpuLive World.nodeEarlier 0 = true
    ∧ (∀ d ∈ tierQueues World.nodeEarlier 0, KeySorted (World.nodeEarlier.dsq d))
    ∧ TierOrder World.nodeEarlier (Kernel.plain 1000) 0
      (flowDispatchPass World.nodeEarlier (Kernel.plain 1000) (0 : ℕ) true) :=
  ⟨by decide, nodeEarlier_sorted, flowDispatch_tierOrder World.nodeEarlier (Kernel.plain 1000) 0
    (by decide) nodeEarlier_sorted⟩

end Pass

end ScxFlow
