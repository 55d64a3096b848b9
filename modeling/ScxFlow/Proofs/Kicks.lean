import ScxFlow.Proofs.EnqueuePaths
import ScxFlow.Proofs.Bypass
import ScxFlow.Proofs.Effects

/-!
# The kick contract

Every end of an enqueue sends one kick at most, to a live CPU of the task's mask that it may
disturb: idle, or running another task.  Off the exiting path the task is eligible there, and the counters
tell what was sent [flowEnqueue_kickContract].
-/

namespace ScxFlow

variable {w : World} {k : Kernel} {p : TaskRef} {t : Option FlowTaskCtx} {enqFlags : UInt64}

section Kicks

/-- The CPU a kick is sent to. -/
def Effect.kicked : Effect → Option ℤ
  | .kickIdle cpu | .kickPreempt cpu => some cpu
  | _ => none

def Effect.preempts : Effect → Bool
  | .kickPreempt _ => true
  | _ => false

/-- The kicks of a call, and those that preempt. -/
def kicksOf (es : List Effect) : List Effect := es.filter fun e => e.kicked.isSome

def preemptsOf (es : List Effect) : List Effect := es.filter Effect.preempts

/-- The CPU row names a task other than `p`, which is on that CPU. -/
structure RunsOther (w : World) (k : Kernel) (p : TaskRef) (cpu : ℤ) : Prop where
  busy : (w.cpuState cpu.toNat).runningPid ≠ 0
  other : (w.cpuState cpu.toNat).runningPid ≠ (k.task p).pid
  there : ∃ q, k.taskFromPid (w.cpuState cpu.toNat).runningPid = some q ∧ (k.task q).taskCpu = cpu

/-- What a kick may be: an idle kick to an idle CPU, a preempt kick to one that runs another
task. -/
inductive KickSound (w : World) (k : Kernel) (p : TaskRef) : Effect → Prop
  | idle (cpu : ℤ) (hidle : (w.cpuState cpu.toNat).runningPid = 0) : KickSound w k p (.kickIdle cpu)
  | preempt (cpu : ℤ) (hother : RunsOther w k p cpu) : KickSound w k p (.kickPreempt cpu)

/-- The task, where it has state, is eligible against the minimum of the CPU. -/
def EligibleOn (w : World) (t : Option FlowTaskCtx) (cpu : ℤ) : Prop :=
  ∀ s, t = some s → flowEligible s.vruntime (flowCpuMin w cpu.toNat) s.vlag = true

/-- The kicks of one enqueue which returns `o`. -/
structure KickContract (w : World) (k : Kernel) (p : TaskRef) (enqFlags : UInt64) (o : OpOut) :
    Prop where
  one : (kicksOf o.eff).length ≤ 1
  target : ∀ e ∈ o.eff, ∀ cpu, e.kicked = some cpu →
    flowCpuLive w cpu.toNat = true ∧ 0 ≤ cpu ∧ (k.task p).cpusPtr cpu.toNat = true
  sound : ∀ e ∈ kicksOf o.eff, KickSound w k p e
  eligible : flowEnqueueExiting w k p enqFlags = none → ∀ e ∈ o.eff, ∀ cpu, e.kicked = some cpu →
    EligibleOn w o.ctx cpu
  exclusive : countsOf .kicks o.eff = [] ∨ countsOf .preemptSkipped o.eff = []
  counted : countsOf .kicks o.eff = List.replicate (kicksOf o.eff).length 1
  countedPreempts : countsOf .preemptKicks o.eff = List.replicate (preemptsOf o.eff).length 1
  kicks : statsLive w k → w.cpuStats k.smpCpu .kicks ≠ u64Max →
    (w.commit k p o).cpuStats k.smpCpu .kicks
      = w.cpuStats k.smpCpu .kicks + UInt64.ofNat (kicksOf o.eff).length
  preemptKicks : statsLive w k → w.cpuStats k.smpCpu .preemptKicks ≠ u64Max →
    (w.commit k p o).cpuStats k.smpCpu .preemptKicks
      = w.cpuStats k.smpCpu .preemptKicks + UInt64.ofNat (preemptsOf o.eff).length

end Kicks

section LastSteps

/-- The kick a call ends with, if any. -/
inductive Kicked (w : World) (k : Kernel) (p : TaskRef) (t : Option FlowTaskCtx) :
    List Effect → Prop
  | quiet : Kicked w k p t []
  | skipped : Kicked w k p t [.count .preemptSkipped 1]
  | idle (cpu : ℤ) (hok : flowCpuOk w (k.task p) cpu = true)
    (hidle : (w.cpuState cpu.toNat).runningPid = 0) (helig : EligibleOn w t cpu) :
    Kicked w k p t [.clearIdle cpu, .kickIdle cpu, .count .kicks 1]
  | preempt (cpu : ℤ) (hok : flowCpuOk w (k.task p) cpu = true) (hother : RunsOther w k p cpu)
    (helig : EligibleOn w t cpu) :
    Kicked w k p t [.kickPreempt cpu, .count .kicks 1, .count .preemptKicks 1]

theorem flowCpu_eq_some {cpu : ℕ} {st : FlowCpuState} (h : flowCpu w cpu = some st) :
    w.cpuState cpu = st ∧ flowCpuMin w cpu = st.minVruntime := by
  have hmin : flowCpuMin w cpu = st.minVruntime := by
    unfold flowCpuMin
    rw [h]
  unfold flowCpu at h
  split at h
  · cases h
  · exact ⟨Option.some.inj h, hmin⟩

theorem cpuIdle_iff {cpu : ℕ} (hm : cpu < flowMaxCpus) :
    cpuIdle w cpu = true ↔ (w.cpuState cpu).runningPid = 0 := by
  unfold cpuIdle flowCpu
  rw [if_neg (by omega)]
  simp

theorem flowKickOneIfIdle_kicked {cpu : ℤ} {es : List Effect}
    (h : flowKickOneIfIdle w (k.task p) cpu t = some es) : Kicked w k p t es := by
  unfold flowKickOneIfIdle at h
  split at h
  · cases h
  rename_i hok
  split at h
  · cases h
  rename_i st hst
  obtain ⟨hrow, hmin⟩ := flowCpu_eq_some hst
  split at h
  · cases h
  rename_i hidle
  split at h
  · obtain rfl := Option.some.inj h
    exact .skipped
  · rename_i helig
    obtain rfl := Option.some.inj h
    refine .idle cpu (by simpa using hok) (by rw [hrow]; simpa using hidle) ?_
    rintro s rfl
    rw [hmin]
    simpa [kickEligible] using helig

theorem flowKickIdleAllowed_kicked (sel : ℤ) :
    Kicked w k p t (flowKickIdleAllowed w k p t sel) := by
  unfold flowKickIdleAllowed
  simp only
  split
  · rename_i h
    exact flowKickOneIfIdle_kicked h
  · split
    · rename_i h
      exact flowKickOneIfIdle_kicked h
    · rcases h : flowKickOneIfIdle w (k.task p) (k.cpumaskFirst p) t with _ | es
      · exact .quiet
      · exact flowKickOneIfIdle_kicked h

theorem flowEnqueueKick_kicked {s : FlowTaskCtx} {e : FlowEnqueueTail}
    (hok : flowCpuOk w (k.task p) e.cpu = true)
    (helig : e.hoistElig = flowEligible s.vruntime (flowCpuMin w e.cpu.toNat) s.vlag) :
    Kicked w k p (some s) (flowEnqueueKick w k p s e) := by
  unfold flowEnqueueKick
  split
  · exact .quiet
  rename_i st hst
  obtain ⟨hrow, -⟩ := flowCpu_eq_some hst
  split
  · exact .skipped
  rename_i hel
  have heligible : EligibleOn w (some s) e.cpu := by
    intro s' hs
    obtain rfl := Option.some.inj hs
    rw [← helig]
    simpa using hel
  split
  · rename_i hidle
    exact .idle e.cpu hok (by rw [hrow]; exact hidle) heligible
  rename_i hbusy
  split
  · exact .quiet
  split
  · exact .quiet
  rename_i hother
  unfold flowEnqueueKickBusy
  split
  · exact .quiet
  rename_i q hq
  split
  · exact .quiet
  rename_i hcpu
  split
  · exact .quiet
  simp only
  split
  · exact .quiet
  split
  · exact .skipped
  split
  · exact .skipped
  · refine .preempt e.cpu hok ⟨by rw [hrow]; exact hbusy, by rw [hrow]; exact hother, q, ?_, ?_⟩
      heligible
    · rw [hrow]
      exact hq
    · simpa using hcpu

theorem flowEnqueuePlace_kicked {s : FlowTaskCtx} {e : FlowEnqueueTail}
    (hok : flowCpuOk w (k.task p) e.cpu = true)
    (helig : e.hoistElig = flowEligible s.vruntime (flowCpuMin w e.cpu.toNat) s.vlag) :
    ∃ x ks, (flowEnqueuePlace w e).2 ++ (if (flowEnqueuePlace w e).1 then []
        else flowEnqueueKick w k p s e) = x :: ks ∧ x.isKick = false
      ∧ Kicked w k p (some s) ks := by
  have hm := (flowCpuOk_iff.mp hok).2.2.1
  rcases flowEnqueuePlace_cases (w := w) hm with h | ⟨dsq, -, h⟩
  · have htook : (flowEnqueuePlace w e).1 = true := by rw [h]
    obtain ⟨hidle, hby⟩ := flowEnqueuePlace_took.mp htook
    rw [h]
    refine ⟨_, _, rfl, rfl, .idle e.cpu hok ((cpuIdle_iff hm).mp hidle) ?_⟩
    intro s' hs
    obtain rfl := Option.some.inj hs
    rw [← helig]
    unfold flowBypassOk at hby
    exact (Bool.and_eq_true_iff.mp hby).2
  · rw [h]
    exact ⟨_, _, rfl, rfl, flowEnqueueKick_kicked hok helig⟩

/-- The exiting path kicks its CPU without a test of eligibility. -/
inductive KickedDirect (w : World) (k : Kernel) (p : TaskRef) : List Effect → Prop
  | idle (cpu : ℤ) (hok : flowCpuOk w (k.task p) cpu = true)
    (hidle : (w.cpuState cpu.toNat).runningPid = 0) :
    KickedDirect w k p [.kickIdle cpu, .count .kicks 1]

/-- What precedes the kick of a call sends and counts none. -/
theorem Ends.kicked {tail : Option (FlowTaskCtx × FlowEnqueueTail)} {rest : List Effect}
    (h : Ends w k p enqFlags tail t rest) :
    ∃ join ks, rest = join ++ ks ∧ (∀ e ∈ join, e.isKick = false)
      ∧ (Kicked w k p t ks ∨ (flowEnqueueExiting w k p enqFlags).isSome = true
        ∧ KickedDirect w k p ks) := by
  cases h with
  | exiting cpu hx hok =>
    refine ⟨[_], _, rfl, by simp [Effect.isKick], ?_⟩
    split
    · rename_i hidle
      exact Or.inr ⟨hx, .idle cpu hok ((cpuIdle_iff (flowCpuOk_iff.mp hok).2.2.1).mp hidle)⟩
    · exact Or.inl .quiet
  | rejected c hc key flags =>
    refine ⟨_, _, rfl, ?_, Or.inl (flowKickIdleAllowed_kicked _)⟩
    rcases hc with rfl | rfl <;> simp [Effect.isKick]
  | rejoined vtime hok =>
    obtain ⟨dsq, -, hins⟩ := flowTierInsert_tier (w := w) (flowCpuOk_iff.mp hok).2.2.1 vtime k.now
    refine ⟨_, _, rfl, ?_, Or.inl (flowKickIdleAllowed_kicked _)⟩
    rw [hins]
    simp [Effect.isKick]
  | placed s e hcpu hok hnow helig =>
    obtain ⟨x, ks, heq, hx, hk⟩ := flowEnqueuePlace_kicked hok helig
    refine ⟨[.count .admits 1, x], ks, ?_, ?_, Or.inl hk⟩
    · rw [List.append_assoc, heq]
      rfl
    · rintro y hy
      rcases List.mem_cons.mp hy with rfl | hy
      · rfl
      · rw [List.mem_singleton.mp hy]
        exact hx

/-- A kick among the last steps is to an allowed CPU, sound, and of an eligible task. -/
theorem Kicked.of_mem {ks : List Effect} (h : Kicked w k p t ks) {e : Effect} {cpu : ℤ}
    (he : e ∈ ks) (hc : e.kicked = some cpu) : flowCpuOk w (k.task p) cpu = true
      ∧ KickSound w k p e ∧ EligibleOn w t cpu := by
  cases h with
  | quiet => simp at he
  | skipped =>
    rw [List.mem_singleton.mp he] at hc
    cases hc
  | idle c hok hidle helig =>
    simp only [List.mem_cons, List.not_mem_nil, or_false] at he
    rcases he with rfl | rfl | rfl
    · cases hc
    · obtain rfl : c = cpu := Option.some.inj hc
      exact ⟨hok, .idle c hidle, helig⟩
    · cases hc
  | preempt c hok hother helig =>
    simp only [List.mem_cons, List.not_mem_nil, or_false] at he
    rcases he with rfl | rfl | rfl
    · obtain rfl : c = cpu := Option.some.inj hc
      exact ⟨hok, .preempt c hother, helig⟩
    · cases hc
    · cases hc

theorem KickedDirect.of_mem {ks : List Effect} (h : KickedDirect w k p ks) {e : Effect} {cpu : ℤ}
    (he : e ∈ ks) (hc : e.kicked = some cpu) :
    flowCpuOk w (k.task p) cpu = true ∧ KickSound w k p e := by
  cases h with
  | idle c hok hidle =>
    simp only [List.mem_cons, List.not_mem_nil, or_false] at he
    rcases he with rfl | rfl
    · obtain rfl : c = cpu := Option.some.inj hc
      exact ⟨hok, .idle c hidle⟩
    · cases hc

end LastSteps

section WholeCall

/-- The kicks of a list of effects, read off its last steps. -/
structure KicksOnly (es ks : List Effect) : Prop where
  sent : kicksOf es = kicksOf ks
  preempts : preemptsOf es = preemptsOf ks
  mem : ∀ e ∈ es, ∀ cpu, e.kicked = some cpu → e ∈ ks
  counts : ∀ c ∈ [Counter.kicks, .preemptKicks, .preemptSkipped], countsOf c es = countsOf c ks

theorem KicksOnly.of_append {pre ks : List Effect} (h : ∀ e ∈ pre, e.isKick = false) :
    KicksOnly (pre ++ ks) ks := by
  have hk : ∀ e ∈ pre, e.kicked = none := by
    intro e he
    have hf := h e he
    cases e <;> simp_all [Effect.isKick, Effect.kicked]
  have hp : ∀ e ∈ pre, e.preempts = false := by
    intro e he
    have hf := h e he
    cases e <;> simp_all [Effect.isKick, Effect.preempts]
  constructor
  case sent =>
    rw [kicksOf, List.filter_append, List.filter_eq_nil_iff.mpr fun e he => by simp [hk e he]]
    rfl
  case preempts =>
    rw [preemptsOf, List.filter_append, List.filter_eq_nil_iff.mpr fun e he => by simp [hp e he]]
    rfl
  case mem =>
    intro e he cpu hc
    rcases List.mem_append.mp he with he | he
    · rw [hk e he] at hc
      cases hc
    · exact he
  case counts =>
    intro c hc
    rw [countsOf_append, countsOf_eq_nil.mpr, List.nil_append]
    intro e he
    have hf := h e he
    simp only [List.mem_cons, List.not_mem_nil, or_false] at hc
    rcases e with ⟨c', n⟩ | _ <;> simp only [Effect.counts]
    rcases hc with rfl | rfl | rfl <;> cases c' <;> simp_all [Effect.isKick]

theorem flowEnqueue_kicksOnly (w : World) (k : Kernel) (p : TaskRef) (enqFlags : UInt64) :
    ∃ ks, KicksOnly (flowEnqueue w k p enqFlags).eff ks
      ∧ (Kicked w k p (flowEnqueue w k p enqFlags).ctx ks
        ∨ (flowEnqueueExiting w k p enqFlags).isSome = true ∧ KickedDirect w k p ks) := by
  obtain ⟨pre, rest, heff, hpre, hends⟩ := flowEnqueue_ends w k p enqFlags
  obtain ⟨join, ks, rfl, hjoin, hk⟩ := hends.kicked
  refine ⟨ks, ?_, hk⟩
  rw [heff, ← List.append_assoc]
  refine .of_append fun e he => ?_
  rcases List.mem_append.mp he with he | he
  · have hs := hpre e he
    cases e with
    | count c n => cases c <;> simp_all [Effect.isSetup, Effect.isKick]
    | _ => simp_all [Effect.isSetup, Effect.isKick]
  · exact hjoin e he

/-- As many counts of one as there are kicks, none or one. -/
theorem run_counted (w : World) (k : Kernel) (p : TaskRef) (o : OpOut) {c : Counter} {n : ℕ}
    (hn : n ≤ 1) (hc : countsOf c o.eff = List.replicate n 1) (hl : statsLive w k)
    (hs : w.cpuStats k.smpCpu c ≠ u64Max) :
    (w.commit k p o).cpuStats k.smpCpu c = w.cpuStats k.smpCpu c + UInt64.ofNat n := by
  -- the storage is written first, and the effects leave it alone
  let w₀ := { w with taskCtx := Function.update w.taskCtx p o.ctx }
  rcases Nat.le_one_iff_eq_zero_or_eq_one.mp hn with rfl | rfl
  · have hz : w.cpuStats k.smpCpu c + UInt64.ofNat 0 = w.cpuStats k.smpCpu c := by simp
    rw [hz]
    exact run_stats w₀ k p (countsOf_eq_nil.mp hc) k.smpCpu
  · exact run_countedOnce k p w₀ hc hl hs

theorem flowEnqueue_kickContract (w : World) (k : Kernel) (p : TaskRef) (enqFlags : UInt64) :
    KickContract w k p enqFlags (flowEnqueue w k p enqFlags) := by
  obtain ⟨ks, hks, hk⟩ := flowEnqueue_kicksOnly w k p enqFlags
  have hkicks := hks.counts .kicks (by simp)
  have hpre := hks.counts .preemptKicks (by simp)
  have hskip := hks.counts .preemptSkipped (by simp)
  have hmem : ∀ e ∈ (flowEnqueue w k p enqFlags).eff, ∀ cpu, e.kicked = some cpu →
      flowCpuOk w (k.task p) cpu = true ∧ KickSound w k p e
        ∧ (flowEnqueueExiting w k p enqFlags = none →
          EligibleOn w (flowEnqueue w k p enqFlags).ctx cpu) := by
    intro e he cpu hc
    rcases hk with hk | ⟨hx, hk⟩
    · obtain ⟨hok, hs, helig⟩ := hk.of_mem (hks.mem e he cpu hc) hc
      exact ⟨hok, hs, fun _ => helig⟩
    · obtain ⟨hok, hs⟩ := hk.of_mem (hks.mem e he cpu hc) hc
      refine ⟨hok, hs, fun hn => ?_⟩
      rw [hn] at hx
      cases hx
  have hlist : (kicksOf ks).length ≤ 1 ∧ (preemptsOf ks).length ≤ 1
      ∧ countsOf .kicks ks = List.replicate (kicksOf ks).length 1
      ∧ countsOf .preemptKicks ks = List.replicate (preemptsOf ks).length 1
      ∧ (countsOf .kicks ks = [] ∨ countsOf .preemptSkipped ks = []) := by
    rcases hk with hk | ⟨-, hk⟩
    · cases hk with
      | quiet => exact ⟨Nat.zero_le 1, Nat.zero_le 1, rfl, rfl, Or.inl rfl⟩
      | skipped => exact ⟨Nat.zero_le 1, Nat.zero_le 1, rfl, rfl, Or.inl rfl⟩
      | idle => exact ⟨le_refl 1, Nat.zero_le 1, rfl, rfl, Or.inr rfl⟩
      | preempt => exact ⟨le_refl 1, le_refl 1, rfl, rfl, Or.inr rfl⟩
    · cases hk with
      | idle => exact ⟨le_refl 1, Nat.zero_le 1, rfl, rfl, Or.inr rfl⟩
  obtain ⟨hone, hpone, hck, hcp, hex⟩ := hlist
  constructor
  case one =>
    rw [hks.sent]
    exact hone
  case target =>
    intro e he cpu hc
    obtain ⟨h0, hn, hm, hmask⟩ := flowCpuOk_iff.mp (hmem e he cpu hc).1
    exact ⟨flowCpuLive_iff.mpr ⟨hn, hm⟩, h0, hmask⟩
  case sound =>
    intro e he
    obtain ⟨hin, hsome⟩ := List.mem_filter.mp he
    obtain ⟨cpu, hc⟩ := Option.isSome_iff_exists.mp hsome
    exact (hmem e hin cpu hc).2.1
  case eligible => exact fun hx e he cpu hc => (hmem e he cpu hc).2.2 hx
  case exclusive =>
    rw [hkicks, hskip]
    exact hex
  case counted =>
    rw [hks.sent]
    exact hkicks.trans hck
  case countedPreempts =>
    rw [hks.preempts]
    exact hpre.trans hcp
  case kicks =>
    intro hl hs
    rw [hks.sent]
    exact run_counted w k p _ hone (hkicks.trans hck) hl hs
  case preemptKicks =>
    intro hl hs
    rw [hks.preempts]
    exact run_counted w k p _ hpone (hpre.trans hcp) hl hs

end WholeCall

end ScxFlow
