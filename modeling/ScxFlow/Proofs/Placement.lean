import ScxFlow.Proofs.EnqueueShape
import ScxFlow.Proofs.Windows

/-!
# Placement finds a CPU

Each exit of select tests the CPU it returns against the host and the mask, and the last one, the
first CPU of the mask, is live whenever any CPU of the mask is.  So select comes back with a live
CPU of the mask or, where there is none, with the previous CPU and one reject counted.
-/

namespace ScxFlow

variable {w : World} {cap : ℕ → UInt32} {k : Kernel} {p : TaskRef} {prevCpu : ℤ}

section Mask

/-- The CPU is on the host and in the mask of the task. -/
def Allowed (w : World) (ts : TaskStruct) (cpu : ℤ) : Prop :=
  ∃ c : ℕ, cpu = c ∧ flowCpuLive w c = true ∧ ts.cpusPtr c = true

/-- The mask of the task has a CPU on the host. -/
def MaskLive (w : World) (ts : TaskStruct) : Prop :=
  ∃ c : ℕ, flowCpuLive w c = true ∧ ts.cpusPtr c = true

/-- What `bpf_cpumask_first` answers: the lowest CPU of the mask, or an id past the host where the
mask has none on it. -/
def CpumaskFirst (w : World) (ts : TaskStruct) (first : ℤ) : Prop :=
  (∃ c : ℕ, first = c ∧ ts.cpusPtr c = true ∧ ∀ d < c, ts.cpusPtr d = false)
  ∨ ((∀ c < w.nrCpuIds, ts.cpusPtr c = false) ∧ (w.nrCpuIds : ℤ) ≤ first)

theorem allowed_iff {ts : TaskStruct} {cpu : ℤ} :
    Allowed w ts cpu ↔ flowCpuOk w ts cpu = true := by
  rw [flowCpuOk_iff]
  constructor
  · rintro ⟨c, rfl, hlive, hmask⟩
    obtain ⟨hn, hm⟩ := flowCpuLive_iff.mp hlive
    exact ⟨Int.natCast_nonneg c, by simpa using hn, by simpa using hm, by simpa using hmask⟩
  · rintro ⟨h0, hn, hm, hmask⟩
    exact ⟨cpu.toNat, (Int.toNat_of_nonneg h0).symm, flowCpuLive_iff.mpr ⟨hn, hm⟩, hmask⟩

theorem Allowed.maskLive {ts : TaskStruct} {cpu : ℤ} (h : Allowed w ts cpu) : MaskLive w ts := by
  obtain ⟨c, -, hlive, hmask⟩ := h
  exact ⟨c, hlive, hmask⟩

/-- The first CPU of a mask is live whenever one of its CPUs is. -/
theorem CpumaskFirst.allowed {ts : TaskStruct} {first : ℤ} (h : CpumaskFirst w ts first)
    (hm : MaskLive w ts) : Allowed w ts first := by
  obtain ⟨c, hlive, hmask⟩ := hm
  obtain ⟨hn, hb⟩ := flowCpuLive_iff.mp hlive
  rcases h with ⟨f, rfl, hf, hleast⟩ | ⟨hempty, -⟩
  · have hle : f ≤ c := by
      by_contra hlt
      rw [hleast c (by omega)] at hmask
      exact Bool.false_ne_true hmask
    exact ⟨f, rfl, flowCpuLive_iff.mpr ⟨by omega, by omega⟩, hf⟩
  · rw [hempty c hn] at hmask
    exact absurd hmask Bool.false_ne_true

end Mask

section ScanPick

/-- The best of a scan has passed its gate. -/
theorem foldl_scanVisit_gate {α : Type} {gate : ℕ → Bool} {take : Option α → ℕ → α} {cpuOf : α → ℕ}
    (htake : ∀ best peer, cpuOf (take best peer) = peer
      ∨ ∃ b, best = some b ∧ cpuOf (take best peer) = cpuOf b) :
    ∀ (l : List ℕ) {s : ScanState α}, (∀ b, s.best = some b → gate (cpuOf b) = true) →
      ∀ b, (l.foldl (scanVisit gate take) s).best = some b → gate (cpuOf b) = true
  | [], _, h, b, hb => h b hb
  | peer :: l, s, h, b, hb => by
    refine foldl_scanVisit_gate htake l (s := scanVisit gate take s peer) (fun b hb => ?_) b hb
    unfold scanVisit at hb
    cases hg : gate peer with
    | false => exact h b (by simpa [hg] using hb)
    | true =>
      have hb' : take s.best peer = b := by simpa [hg] using hb
      rw [← hb']
      rcases htake s.best peer with hc | ⟨b₀, hb₀, hc⟩
      · rwa [hc]
      · rw [hc]
        exact h b₀ hb₀

theorem ssfTake_cpu (prevCpu : ℤ) (best : Option SsfBest) (peer : SsfBest) :
    (ssfTake prevCpu best peer).cpu = peer.cpu
      ∨ ∃ b, best = some b ∧ (ssfTake prevCpu best peer).cpu = b.cpu := by
  cases best with
  | none => exact Or.inl rfl
  | some b =>
    simp only [ssfTake, Option.some.injEq, exists_eq_left']
    split_ifs <;> simp

theorem bsfTake_cpu (prevCpu : ℤ) (best : Option BsfBest) (peer : BsfBest) :
    (bsfTake prevCpu best peer).cpu = peer.cpu
      ∨ ∃ b, best = some b ∧ (bsfTake prevCpu best peer).cpu = b.cpu := by
  cases best with
  | none => exact Or.inl rfl
  | some b =>
    simp only [bsfTake, Option.some.injEq, exists_eq_left']
    split_ifs <;> simp

/-- A scan from an empty best ends on a CPU of the mask. -/
theorem scanned_allowed {α : Type} {t : FlowScanTail} {take : Option α → ℕ → α} {cpuOf : α → ℕ}
    {l visited : List ℕ} {b : α}
    (htake : ∀ best peer, cpuOf (take best peer) = peer
      ∨ ∃ b, best = some b ∧ cpuOf (take best peer) = cpuOf b)
    (h : (l.foldl (scanVisit (scanGate w t) take) ⟨none, visited⟩).best = some b) :
    Allowed w t.ts (cpuOf b) := by
  have hgate : scanGate w t (cpuOf b) = true :=
    foldl_scanVisit_gate htake l (fun b hb => absurd hb.symm (Option.some_ne_none b)) b h
  exact allowed_iff.mpr (scanGate_iff.mp hgate).2.1

theorem flowSsfPick_allowed {t : FlowScanTail} {c : ℕ} (h : flowSsfPick w cap t = some c) :
    Allowed w t.ts c := by
  obtain ⟨b, hb, rfl⟩ := Option.map_eq_some_iff.mp h
  obtain ⟨hn, hle⟩ := host_of_scanLoop hb
  rw [ssfScan_eq hn hle] at hb
  exact scanned_allowed (fun best peer => ssfTake_cpu _ best _) hb

theorem flowBsfPick_allowed {t : FlowScanTail} {c : ℕ} (h : flowBsfPick w t = some c) :
    Allowed w t.ts c := by
  obtain ⟨b, hb, rfl⟩ := Option.map_eq_some_iff.mp h
  obtain ⟨hn, hle⟩ := host_of_scanLoop hb
  rw [bsfScan_eq hn hle] at hb
  exact scanned_allowed (fun best peer => bsfTake_cpu _ best _) hb

theorem flowSelectBest_allowed {ts : TaskStruct} {deadline now : UInt64} {thisCpu c : ℕ}
    (h : (flowSelectBest w cap ts deadline now thisCpu prevCpu).1 = some c) : Allowed w ts c := by
  rw [flowSelectBest_fst, Option.or_eq_some_iff] at h
  rcases h with h | ⟨-, h⟩
  · exact flowSsfPick_allowed h
  · exact flowBsfPick_allowed h

end ScanPick

section Exits

/-- The outcome placement owes: a live CPU of the mask with no reject counted where there is one,
else the previous CPU and one reject. -/
structure Placed (w : World) (ts : TaskStruct) (prevCpu : ℤ) (o : ℤ × List SelectEffect) :
    Prop where
  found : MaskLive w ts → Allowed w ts o.1 ∧ .gateReject ∉ o.2
  missed : ¬MaskLive w ts → o = (prevCpu, [.gateReject])

/-- An exit on a CPU that passed the test, with no reject. -/
theorem Placed.of_allowed {ts : TaskStruct} {o : ℤ × List SelectEffect} (h : Allowed w ts o.1)
    (he : .gateReject ∉ o.2) : Placed w ts prevCpu o :=
  ⟨fun _ => ⟨h, he⟩, fun hno => absurd h.maskLive hno⟩

theorem selectFirst_placed (hfirst : CpumaskFirst w (k.task p) (k.cpumaskFirst p)) :
    Placed w (k.task p) prevCpu (selectFirst w k p prevCpu) := by
  unfold selectFirst
  by_cases hok : flowCpuOk w (k.task p) (k.cpumaskFirst p) = true
  · rw [if_pos hok]
    exact .of_allowed (allowed_iff.mpr hok) List.not_mem_nil
  · rw [if_neg hok]
    exact ⟨fun hm => absurd (allowed_iff.mp (hfirst.allowed hm)) hok, fun _ => rfl⟩

theorem flowSelectPinnedCpu_placed (hfirst : CpumaskFirst w (k.task p) (k.cpumaskFirst p)) :
    Placed w (k.task p) prevCpu (flowSelectPinnedCpu w k p prevCpu) := by
  unfold flowSelectPinnedCpu
  simp only
  split_ifs with hhere hprev
  · exact .of_allowed (allowed_iff.mpr hhere) List.not_mem_nil
  · exact .of_allowed (allowed_iff.mpr hprev) List.not_mem_nil
  · exact selectFirst_placed hfirst

theorem flowSelectIdleProbe_allowed {thisCpu : ℕ} (h : flowSelectIdleProbe w k p thisCpu ≥ 0) :
    Allowed w (k.task p) (flowSelectIdleProbe w k p thisCpu) := by
  unfold flowSelectIdleProbe at h ⊢
  simp only at h ⊢
  split_ifs at h ⊢ with hself hpicked
  · exact allowed_iff.mpr (Bool.and_eq_true_iff.mp hself).1
  · exact allowed_iff.mpr hpicked.2
  · exact absurd h (by decide)

/-- The scans count no reject. -/
theorem flowSelectBest_no_reject (w : World) (cap : ℕ → UInt32) (ts : TaskStruct)
    (deadline now : UInt64) (thisCpu : ℕ) (prevCpu : ℤ) :
    .gateReject ∉ (flowSelectBest w cap ts deadline now thisCpu prevCpu).2 := fun h =>
  SelectEffect.noConfusion (flowSelectBest_store h)

theorem flowSelectScan_placed {deadline : UInt64} {thisCpu : ℕ}
    (hfirst : CpumaskFirst w (k.task p) (k.cpumaskFirst p)) :
    Placed w (k.task p) prevCpu (flowSelectScan w cap k p prevCpu deadline thisCpu) := by
  unfold flowSelectScan
  simp only
  by_cases hstay : (flowCpuOk w (k.task p) prevCpu
      && flowCpuMeets w prevCpu.toNat deadline k.now) = true
  · rw [if_pos hstay]
    exact .of_allowed (allowed_iff.mpr (Bool.and_eq_true_iff.mp hstay).1) List.not_mem_nil
  rw [if_neg hstay]
  rcases hbest : (flowSelectBest w cap (k.task p) deadline k.now thisCpu prevCpu).1 with _ | best
  · rw [flowSelectBest_of_none hbest]
    simp only
    split_ifs with hprev
    · exact .of_allowed (allowed_iff.mpr hprev) List.not_mem_nil
    · exact selectFirst_placed hfirst
  · obtain ⟨es, hes⟩ : ∃ es, flowSelectBest w cap (k.task p) deadline k.now thisCpu prevCpu
        = (some best, es) := ⟨_, Prod.ext hbest rfl⟩
    have hno : .gateReject ∉ es := by
      have h := flowSelectBest_no_reject w cap (k.task p) deadline k.now thisCpu prevCpu
      rwa [hes] at h
    rw [hes]
    exact .of_allowed (flowSelectBest_allowed hbest) hno

theorem flowSelectCpu_placed (cap : ℕ → UInt32) (prevCpu : ℤ)
    (hfirst : CpumaskFirst w (k.task p) (k.cpumaskFirst p)) :
    Placed w (k.task p) prevCpu (flowSelectCpu w cap k p prevCpu) := by
  unfold flowSelectCpu
  simp only
  by_cases hmig : (k.task p).migrationDisabled = true
  · rw [if_pos hmig]
    exact flowSelectPinnedCpu_placed hfirst
  rw [if_neg hmig]
  by_cases hone : (k.task p).nrCpusAllowed = 1
  · rw [if_pos hone]
    exact flowSelectPinnedCpu_placed hfirst
  rw [if_neg hone]
  by_cases hidle : flowSelectIdleProbe w k p k.smpCpu ≥ 0
  · rw [if_pos hidle]
    exact .of_allowed (flowSelectIdleProbe_allowed hidle) List.not_mem_nil
  rw [if_neg hidle]
  split_ifs with hzero
  · exact .of_allowed (allowed_iff.mpr hzero.2) List.not_mem_nil
  · exact flowSelectScan_placed hfirst

theorem select_cpuStats : ∀ (es : List SelectEffect) (w : World), .gateReject ∉ es →
    (w.select k es).cpuStats = w.cpuStats
  | [], _, _ => rfl
  | .storeCursor cpu next :: es, w, h =>
    select_cpuStats es (w.setCpu cpu { w.cpuState cpu with cursor := next })
      fun he => h (List.mem_cons_of_mem _ he)
  | .gateReject :: _, _, h => absurd List.mem_cons_self h

theorem flowPickTarget_allowed (hfirst : CpumaskFirst w (k.task p) (k.cpumaskFirst p)) (sel : ℤ) :
    (Allowed w (k.task p) (flowPickTarget w k p sel) ↔ MaskLive w (k.task p))
    ∧ (¬MaskLive w (k.task p) → flowPickTarget w k p sel < 0) := by
  unfold flowPickTarget
  simp only
  split_ifs with hsel hok
  · have h := allowed_iff.mpr hsel.2
    exact ⟨⟨fun _ => h.maskLive, fun _ => h⟩, fun hno => absurd h.maskLive hno⟩
  · have h := allowed_iff.mpr hok
    exact ⟨⟨fun _ => h.maskLive, fun _ => h⟩, fun hno => absurd h.maskLive hno⟩
  · exact ⟨⟨fun h => h.maskLive, fun hm => absurd (allowed_iff.mp (hfirst.allowed hm)) hok⟩,
      fun _ => by decide⟩

end Exits

section Placement

/-- Select returns a live CPU of the mask and counts no reject when the mask has one, else the
previous CPU with one reject counted; and the target of an enqueue, from any hint, is a live CPU of
the mask exactly when the mask has one, else negative. -/
theorem placement_finds (w : World) (cap : ℕ → UInt32) (k : Kernel) (p : TaskRef)
    (hfirst : CpumaskFirst w (k.task p) (k.cpumaskFirst p)) (prevCpu sel : ℤ) :
    let o := flowSelectCpu w cap k p prevCpu
    ((∃ c : ℕ, flowCpuLive w c = true ∧ (k.task p).cpusPtr c = true) →
      (∃ c : ℕ, o.1 = c ∧ flowCpuLive w c = true ∧ (k.task p).cpusPtr c = true)
      ∧ .gateReject ∉ o.2 ∧ (w.select k o.2).cpuStats = w.cpuStats)
    ∧ (¬(∃ c : ℕ, flowCpuLive w c = true ∧ (k.task p).cpusPtr c = true) →
      o.1 = prevCpu ∧ o.2 = [.gateReject] ∧ w.select k o.2 = flowCount w k .gateRejects 1)
    ∧ ((∃ c : ℕ, flowPickTarget w k p sel = c ∧ flowCpuLive w c = true
        ∧ (k.task p).cpusPtr c = true)
      ↔ ∃ c : ℕ, flowCpuLive w c = true ∧ (k.task p).cpusPtr c = true)
    ∧ (¬(∃ c : ℕ, flowCpuLive w c = true ∧ (k.task p).cpusPtr c = true) →
      flowPickTarget w k p sel < 0) := by
  intro o
  have hplaced := flowSelectCpu_placed cap prevCpu hfirst
  have htarget := flowPickTarget_allowed hfirst sel
  refine ⟨fun hm => ?_, fun hno => ?_, htarget.1, htarget.2⟩
  · obtain ⟨hallowed, hreject⟩ := hplaced.found hm
    exact ⟨hallowed, hreject, select_cpuStats _ w hreject⟩
  · have ho : o = (prevCpu, [.gateReject]) := hplaced.missed hno
    rw [ho]
    exact ⟨rfl, rfl, rfl⟩

/-- A host of two CPUs and a task whose mask is CPU 1. -/
def Kernel.onlyCpuOne : Kernel where
  __ := Kernel.plain 5
  task p := { TaskStruct.plain p with cpusPtr := fun c => decide (c = 1), nrCpusAllowed := 2 }
  pickIdleCpu _ := -16
  cpumaskFirst _ := 1

theorem placement_finds_one :
    ∃ c : ℕ, (flowSelectCpu (World.boot 2 1 fun _ => 0) (fun _ => 0) .onlyCpuOne 0 0).1 = c
      ∧ flowCpuLive (World.boot 2 1 fun _ => 0) c = true
      ∧ (Kernel.onlyCpuOne.task 0).cpusPtr c = true := by
  have hfirst : CpumaskFirst (World.boot 2 1 fun _ => 0) (Kernel.onlyCpuOne.task 0)
      (Kernel.onlyCpuOne.cpumaskFirst 0) :=
    Or.inl ⟨1, rfl, rfl, fun d hd => by
      obtain rfl : d = 0 := by omega
      rfl⟩
  exact ((placement_finds _ (fun _ => 0) .onlyCpuOne 0 hfirst 0 0).1 ⟨1, rfl, rfl⟩).1

end Placement

end ScxFlow
