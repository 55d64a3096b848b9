import ScxFlow.Enqueue
import ScxFlow.Lib.Run

/-!
# What the effects of an op leave

Each effect changes one part of the shared state.  The lemmas here say which: the queues change by
insertions only, a stats counter by its own counts only, the hint rows and the task storage by
no effect at all.
-/

namespace ScxFlow

variable (w : World) (k : Kernel) (p : TaskRef)

/-- The queue an effect inserts into. -/
def Effect.insertedTo : Effect → Option ℕ
  | .insertVtime dsq _ _ => some dsq
  | .insert dsq _ => some dsq
  | _ => none

section Helpers

variable (c : Counter) (n : UInt64) (cpu : ℤ) (pid : UInt32) (v : UInt64)

theorem flowCount_eq : flowCount w k c n = { w with cpuStats := (flowCount w k c n).cpuStats } := by
  unfold flowCount
  split_ifs <;> rfl

theorem flowMinAdvance_eq :
    flowMinAdvance w cpu v = { w with cpuState := (flowMinAdvance w cpu v).cpuState } := by
  unfold flowMinAdvance
  simp only
  split_ifs <;> rfl

theorem flowClearRunning_eq :
    flowClearRunning w cpu = { w with cpuState := (flowClearRunning w cpu).cpuState } := by
  unfold flowClearRunning
  split_ifs <;> rfl

theorem flowClearRunningIfOwner_eq : flowClearRunningIfOwner w cpu pid
    = { w with cpuState := (flowClearRunningIfOwner w cpu pid).cpuState } := by
  unfold flowClearRunningIfOwner
  split_ifs <;> rfl

theorem flowCgrpCacheInvalidate_eq : flowCgrpCacheInvalidate w pid
    = { w with cgrpCache := (flowCgrpCacheInvalidate w pid).cgrpCache } := by
  unfold flowCgrpCacheInvalidate
  split_ifs <;> rfl

theorem cacheFill_eq (id : UInt64) :
    w.cacheFill k pid id = { w with cgrpCache := (w.cacheFill k pid id).cgrpCache } := by
  unfold World.cacheFill
  split_ifs <;> rfl

theorem flowSetWeight_eq (weight : UInt32) :
    flowSetWeight w p weight = { w with taskCtx := (flowSetWeight w p weight).taskCtx } := by
  unfold flowSetWeight
  split <;> rfl

end Helpers

/-- A weight change sets one field of a task that has state. -/
theorem flowSetWeight_taskCtx (weight : UInt32) : (flowSetWeight w p weight).taskCtx
    = Function.update w.taskCtx p
      ((w.taskCtx p).map fun t => { t with weight := flowWeightClamp weight }) := by
  unfold flowSetWeight
  split
  · rename_i ht
    rw [ht, Option.map_none, ← ht, Function.update_eq_self]
  · rename_i t ht
    rw [ht]
    rfl

@[simp] theorem setDsq_self (dsq : ℕ) (l : List Entry) : (w.setDsq dsq l).dsq dsq = l := by
  simp [World.setDsq]

theorem flowCpuLive_iff {w : World} {cpu : ℕ} :
    flowCpuLive w cpu = true ↔ cpu < w.nrCpuIds ∧ cpu < flowMaxCpus := by
  unfold flowCpuLive
  split_ifs with h h'
  · simp only [false_iff, not_and, not_lt]
    omega
  · simp only [false_iff, not_and, not_lt]
    exact fun _ => h'
  · simp only [true_iff]
    omega

theorem flowCpuLive_of_entryOk {w : World} {ts : TaskStruct} {cpu : ℕ} (hcpu : ts.taskCpu = cpu)
    (h : flowEntryOk w ts ts.taskCpu 0 = true) : flowCpuLive w cpu = true := by
  unfold flowEntryOk at h
  rw [hcpu] at h
  by_contra hdead
  simp [hdead] at h

/-- What no effect writes. -/
theorem perform_frame (e : Effect) :
    (w.perform k p e).taskCtx = w.taskCtx ∧ (w.perform k p e).hintStor = w.hintStor
      ∧ (w.perform k p e).nrCpuIds = w.nrCpuIds ∧ (w.perform k p e).nrNodeIds = w.nrNodeIds := by
  cases e <;> simp only [World.perform]
  case count c n => rw [flowCount_eq]; simp
  case cacheFill pid id => rw [cacheFill_eq]; simp
  case cacheInvalidate pid => rw [flowCgrpCacheInvalidate_eq]; simp
  case clearRunningIfOwner cpu pid => rw [flowClearRunningIfOwner_eq]; simp
  case clearRunning cpu => rw [flowClearRunning_eq]; simp
  case minAdvance cpu v => rw [flowMinAdvance_eq]; simp
  all_goals simp [World.setCpu, World.setDsq]

/-- An effect on a CPU row. -/
def Effect.onRow : Effect → Bool
  | .setRunning _ _ | .clearRunningIfOwner _ _ | .clearRunning _ | .minAdvance _ _ => true
  | _ => false

theorem perform_cpuState {e : Effect} (h : e.onRow = false) :
    (w.perform k p e).cpuState = w.cpuState := by
  cases e <;> simp only [World.perform]
  case count c n => rw [flowCount_eq]
  case cacheFill pid id => rw [cacheFill_eq]
  case cacheInvalidate pid => rw [flowCgrpCacheInvalidate_eq]
  case insertVtime => rfl
  case insert => rfl
  all_goals simp [Effect.onRow] at h

theorem perform_dsq {e : Effect} (h : e.insertedTo = none) : (w.perform k p e).dsq = w.dsq := by
  cases e <;> simp only [World.perform]
  case count c n => rw [flowCount_eq]
  case insertVtime dsq key flags => simp [Effect.insertedTo] at h
  case insert dsq flags => simp [Effect.insertedTo] at h
  case cacheFill pid id => rw [cacheFill_eq]
  case cacheInvalidate pid => rw [flowCgrpCacheInvalidate_eq]
  case setRunning cpu pid => rfl
  case clearRunningIfOwner cpu pid => rw [flowClearRunningIfOwner_eq]
  case clearRunning cpu => rw [flowClearRunning_eq]
  case minAdvance cpu v => rw [flowMinAdvance_eq]

theorem insertByKey_split (e : Entry) :
    ∀ l : List Entry, ∃ pre post, l = pre ++ post ∧ insertByKey e l = pre ++ e :: post
  | [] => ⟨[], [], rfl, rfl⟩
  | q :: qs => by
    unfold insertByKey
    split
    · exact ⟨[], q :: qs, rfl, rfl⟩
    · obtain ⟨pre, post, h, hi⟩ := insertByKey_split e qs
      refine ⟨q :: pre, post, ?_, ?_⟩
      · rw [h]
        rfl
      · rw [hi]
        rfl

/-- An insertion puts one entry of the task into one queue and keeps every order. -/
theorem perform_insert {e : Effect} {dsq : ℕ} (h : e.insertedTo = some dsq) :
    (∃ pre post key, w.dsq dsq = pre ++ post ∧ (w.perform k p e).dsq dsq = pre ++ ⟨p, key⟩ :: post)
      ∧ ∀ d, d ≠ dsq → (w.perform k p e).dsq d = w.dsq d := by
  cases e with
  | insertVtime d key flags =>
    obtain rfl : d = dsq := by simpa [Effect.insertedTo] using h
    obtain ⟨pre, post, hl, hi⟩ := insertByKey_split ⟨p, key⟩ (w.dsq d)
    refine ⟨⟨pre, post, key, hl, ?_⟩, fun d' hd => ?_⟩
    · simpa [World.perform, World.setDsq] using hi
    · simp [World.perform, World.setDsq, hd]
  | insert d flags =>
    obtain rfl : d = dsq := by simpa [Effect.insertedTo] using h
    refine ⟨⟨w.dsq d, [], 0, by simp, ?_⟩, fun d' hd => ?_⟩
    · simp [World.perform, World.setDsq]
    · simp [World.perform, World.setDsq, hd]
  | _ => simp [Effect.insertedTo] at h

/-- The entry of `p` an effect puts into a queue. -/
def Effect.entry (p : TaskRef) : Effect → Option (ℕ × Entry)
  | .insertVtime dsq key _ => some (dsq, ⟨p, key⟩)
  | .insert dsq _ => some (dsq, ⟨p, 0⟩)
  | _ => none

theorem Effect.insertedTo_of_entry {e : Effect} {dsq : ℕ} {x : Entry}
    (h : e.entry p = some (dsq, x)) : e.insertedTo = some dsq := by
  cases e <;> simp_all [Effect.entry, Effect.insertedTo]

theorem mem_insertByKey {e x : Entry} {l : List Entry} (h : x ∈ insertByKey e l) : x = e ∨ x ∈ l := by
  obtain ⟨pre, post, rfl, hi⟩ := insertByKey_split e l
  rw [hi] at h
  rcases List.mem_append.mp h with h | h
  · exact Or.inr (List.mem_append_left _ h)
  · rcases List.mem_cons.mp h with h | h
    · exact Or.inl h
    · exact Or.inr (List.mem_append_right _ h)

theorem mem_perform_dsq {e : Effect} {dsq : ℕ} {x : Entry} (h : x ∈ (w.perform k p e).dsq dsq) :
    x ∈ w.dsq dsq ∨ e.entry p = some (dsq, x) := by
  rcases he : e.insertedTo with _ | d
  · rw [perform_dsq w k p he] at h
    exact Or.inl h
  · by_cases hd : dsq = d
    · subst hd
      cases e with
      | insertVtime d key flags =>
        obtain rfl : d = dsq := by simpa [Effect.insertedTo] using he
        rw [World.perform, setDsq_self] at h
        rcases mem_insertByKey h with rfl | h
        · exact Or.inr rfl
        · exact Or.inl h
      | insert d flags =>
        obtain rfl : d = dsq := by simpa [Effect.insertedTo] using he
        rw [World.perform, setDsq_self] at h
        rcases List.mem_append.mp h with h | h
        · exact Or.inl h
        · rw [List.mem_singleton.mp h]
          exact Or.inr rfl
      | _ => simp [Effect.insertedTo] at he
    · rw [(perform_insert w k p he).2 dsq hd] at h
      exact Or.inl h

/-- A count of `c`. -/
def Effect.counts (c : Counter) : Effect → Bool
  | .count c' _ => decide (c' = c)
  | _ => false

theorem perform_stats {e : Effect} {c : Counter} (h : e.counts c = false) (cpu : ℕ) :
    (w.perform k p e).cpuStats cpu c = w.cpuStats cpu c := by
  cases e <;> simp only [World.perform]
  case count c' n =>
    have hc : c ≠ c' := by
      rintro rfl
      simp [Effect.counts] at h
    unfold flowCount
    split_ifs
    · rfl
    · rfl
    · rfl
    · by_cases hcpu : cpu = k.smpCpu
      · subst hcpu
        simp [hc]
      · simp [hcpu]
  case insertVtime => rfl
  case insert => rfl
  case cacheFill pid id => rw [cacheFill_eq]
  case cacheInvalidate pid => rw [flowCgrpCacheInvalidate_eq]
  case setRunning => rfl
  case clearRunningIfOwner cpu pid => rw [flowClearRunningIfOwner_eq]
  case clearRunning cpu => rw [flowClearRunning_eq]
  case minAdvance cpu v => rw [flowMinAdvance_eq]

/-- The executing CPU has a stats row. -/
def statsLive (w : World) (k : Kernel) : Prop := k.smpCpu < w.nrCpuIds ∧ k.smpCpu < flowMaxCpus

theorem flowCount_one {c : Counter} (hl : statsLive w k) (hs : w.cpuStats k.smpCpu c ≠ u64Max) :
    (flowCount w k c 1).cpuStats k.smpCpu c = w.cpuStats k.smpCpu c + 1 := by
  obtain ⟨hn, hm⟩ := hl
  unfold flowCount
  rw [if_neg (by omega), if_neg (by omega), if_neg hs]
  simp

section ManyEffects

theorem run_cons (e : Effect) (es : List Effect) :
    w.run k p (e :: es) = (w.perform k p e).run k p es := rfl

theorem run_append (es es' : List Effect) :
    w.run k p (es ++ es') = (w.run k p es).run k p es' := by
  unfold World.run
  rw [List.foldl_append]

theorem run_dsq {es : List Effect} (h : ∀ e ∈ es, e.insertedTo = none) :
    (w.run k p es).dsq = w.dsq :=
  List.foldl_observe World.dsq w fun w e he => perform_dsq w k p (h e he)

theorem mem_run_dsq {dsq : ℕ} {x : Entry} :
    ∀ {es : List Effect} (w : World), x ∈ (w.run k p es).dsq dsq →
      x ∈ w.dsq dsq ∨ ∃ e ∈ es, e.entry p = some (dsq, x)
  | [], _, h => Or.inl h
  | e :: es, w, h => by
    rw [run_cons] at h
    rcases mem_run_dsq (w.perform k p e) h with h | ⟨e', he', hx⟩
    · rcases mem_perform_dsq w k p h with h | hx
      · exact Or.inl h
      · exact Or.inr ⟨e, List.mem_cons_self, hx⟩
    · exact Or.inr ⟨e', List.mem_cons_of_mem e he', hx⟩

theorem run_stats {es : List Effect} {c : Counter} (h : ∀ e ∈ es, e.counts c = false) (cpu : ℕ) :
    (w.run k p es).cpuStats cpu c = w.cpuStats cpu c :=
  List.foldl_observe (fun w : World => w.cpuStats cpu c) w
    fun w e he => perform_stats w k p (h e he) cpu

theorem run_taskCtx (es : List Effect) : (w.run k p es).taskCtx = w.taskCtx :=
  List.foldl_observe World.taskCtx w fun w e _ => (perform_frame w k p e).1

theorem run_hintStor (es : List Effect) : (w.run k p es).hintStor = w.hintStor :=
  List.foldl_observe World.hintStor w fun w e _ => (perform_frame w k p e).2.1

theorem run_nrCpuIds (es : List Effect) : (w.run k p es).nrCpuIds = w.nrCpuIds :=
  List.foldl_observe World.nrCpuIds w fun w e _ => (perform_frame w k p e).2.2.1

@[simp] theorem commit_taskCtx (o : OpOut) :
    (w.commit k p o).taskCtx = Function.update w.taskCtx p o.ctx := run_taskCtx _ k p o.eff

@[simp] theorem commit_hintStor (o : OpOut) : (w.commit k p o).hintStor = w.hintStor :=
  run_hintStor _ k p o.eff

theorem perform_live (e : Effect) (cpu : ℕ) : flowCpuLive (w.perform k p e) cpu = flowCpuLive w cpu := by
  unfold flowCpuLive
  rw [(perform_frame w k p e).2.2.1]

end ManyEffects

section OneInsertion

/-- The task joined `dsq` with a single new entry; every other entry stayed in place. -/
def JoinedOnce (w w' : World) (p : TaskRef) (dsq : ℕ) : Prop :=
  (∃ pre post key, w.dsq dsq = pre ++ post ∧ w'.dsq dsq = pre ++ ⟨p, key⟩ :: post)
    ∧ ∀ d, d ≠ dsq → w'.dsq d = w.dsq d

/-- The insertions of a list of effects, by queue. -/
def insertions (es : List Effect) : List ℕ := es.filterMap Effect.insertedTo

@[simp] theorem insertions_append (es es' : List Effect) :
    insertions (es ++ es') = insertions es ++ insertions es' := List.filterMap_append

theorem insertions_eq_nil {es : List Effect} :
    insertions es = [] ↔ ∀ e ∈ es, e.insertedTo = none := List.filterMap_eq_nil_iff

theorem run_joinedOnce {dsq : ℕ} :
    ∀ {es : List Effect} (w : World), insertions es = [dsq] → JoinedOnce w (w.run k p es) p dsq
  | [], _, h => by simp [insertions] at h
  | e :: es, w, h => by
    rcases he : e.insertedTo with _ | d
    · have hes : insertions es = [dsq] := by simpa [insertions, he] using h
      have ih := run_joinedOnce (w.perform k p e) hes
      rw [run_cons]
      simpa only [JoinedOnce, perform_dsq w k p he] using ih
    · have hd : d = dsq ∧ insertions es = [] := by simpa [insertions, he] using h
      obtain ⟨rfl, hes⟩ := hd
      rw [run_cons]
      have hq := run_dsq (w.perform k p e) k p (insertions_eq_nil.mp hes)
      simpa only [JoinedOnce, hq] using perform_insert w k p he

/-- The counts of `c` in a list of effects, by amount. -/
def countsOf (c : Counter) (es : List Effect) : List UInt64 :=
  es.filterMap fun e => match e with
    | .count c' n => if c' = c then some n else none
    | _ => none

@[simp] theorem countsOf_append (c : Counter) (es es' : List Effect) :
    countsOf c (es ++ es') = countsOf c es ++ countsOf c es' := List.filterMap_append

theorem countsOf_eq_nil {c : Counter} {es : List Effect} :
    countsOf c es = [] ↔ ∀ e ∈ es, e.counts c = false := by
  unfold countsOf
  rw [List.filterMap_eq_nil_iff]
  refine forall₂_congr fun e _ => ?_
  cases e <;> simp [Effect.counts]

/-- A single count of one on a live and unsaturated row adds one. -/
theorem run_countedOnce {c : Counter} :
    ∀ {es : List Effect} (w : World), countsOf c es = [1] → statsLive w k →
      w.cpuStats k.smpCpu c ≠ u64Max →
      (w.run k p es).cpuStats k.smpCpu c = w.cpuStats k.smpCpu c + 1
  | [], _, h, _, _ => by simp [countsOf] at h
  | e :: es, w, h, hl, hs => by
    rw [run_cons]
    rcases he : e.counts c with _ | _
    · have hnil : countsOf c [e] = [] := countsOf_eq_nil.mpr (by simpa using he)
      have hes : countsOf c es = [1] := by
        have happ : countsOf c ([e] ++ es) = [1] := h
        rwa [countsOf_append, hnil, List.nil_append] at happ
      have hl' : statsLive (w.perform k p e) k := by
        simpa only [statsLive, (perform_frame w k p e).2.2.1] using hl
      have hst := perform_stats w k p he k.smpCpu
      rw [run_countedOnce (w.perform k p e) hes hl' (by rw [hst]; exact hs), hst]
    · rcases e with ⟨c', n⟩ | _ <;> simp [Effect.counts] at he
      subst he
      have hn : n = 1 ∧ countsOf c' es = [] := by simpa [countsOf] using h
      obtain ⟨rfl, hes⟩ := hn
      rw [run_stats _ k p (countsOf_eq_nil.mp hes)]
      exact flowCount_one w k hl hs

end OneInsertion

end ScxFlow
