import ScxFlow.System
import ScxFlow.Proofs.EnqueueShape

/-!
# The direct bypass and the keys it passes

The bypass runs its task before every tier.  It looks at depths, never at keys: with nothing queued
it passes no one, and with a drain that ends by its key it passes every earlier key still queued.
`flowEnqueuePlace_keeps_order_iff` is the exact condition under which no earlier key waits behind it.
-/

namespace ScxFlow

/-- The three queues a pass of the CPU drains after its terminal queue. -/
def drainedQueues (w : World) (cpu : ℕ) : List ℕ :=
  [flowLocalDsq cpu, flowNodeDsq (flowDispatchNode w cpu), flowMachineDsq]

/-- No task queued for the CPU has a strict key earlier than `vtime`. -/
def NoneEarlier (w : World) (cpu : ℕ) (vtime : UInt64) : Prop :=
  ∀ dsq ∈ drainedQueues w cpu, ∀ q ∈ w.dsq dsq, flowTimeBefore q.key vtime = false

/-- What keeps the bypass from passing an earlier key. -/
inductive BypassSafe (w : World) (e : FlowEnqueueTail) : Prop
  /-- The target runs a task. -/
  | busy (h : cpuIdle w e.cpu.toNat = false)
  /-- The arrival is ahead of its lag bound. -/
  | ineligible (h : e.hoistElig = false)
  /-- The machine queue holds work. -/
  | machine (h : w.dsq flowMachineDsq ≠ [])
  /-- The reject queue holds work. -/
  | reject (h : w.dsq flowOverflowDsq ≠ [])
  /-- The local or the node queue holds work whose drain ends past the key. -/
  | drain (hq : w.dsq (flowLocalDsq e.cpu.toNat) ≠ [] ∨ nodeQueued w e.cpu.toNat ≠ 0)
    (h : flowCpuMeetsFairHint (nrQueued w (flowLocalDsq e.cpu.toNat))
      (nodeQueued w e.cpu.toNat) e.vtime e.now = false)
  /-- The keys queued on the CPU and its node are none of them earlier. -/
  | none (h : ∀ q ∈ w.dsq (flowLocalDsq e.cpu.toNat)
      ++ w.dsq (flowNodeDsq (flowDispatchNode w e.cpu.toNat)), flowTimeBefore q.key e.vtime = false)

section Gates

variable {w : World} {e : FlowEnqueueTail}

theorem nrQueued_nonneg (dsq : ℕ) : 0 ≤ nrQueued w dsq := Int.natCast_nonneg _

theorem nrQueued_nonpos {dsq : ℕ} : nrQueued w dsq ≤ 0 ↔ w.dsq dsq = [] := by
  unfold nrQueued
  rw [← List.length_eq_zero_iff]
  omega

theorem nodeQueued_nonneg (cpu : ℕ) : 0 ≤ nodeQueued w cpu := by
  unfold nodeQueued
  simp only
  split
  · exact nrQueued_nonneg _
  · exact le_refl 0

theorem flowEnqueuePlace_took : (flowEnqueuePlace w e).1 = true ↔
    cpuIdle w e.cpu.toNat = true ∧ flowBypassOk w e = true := by
  unfold flowEnqueuePlace
  split_ifs with h₁ h₂
  · simp [h₁, h₂]
  · simp [h₁, h₂]
  · simp [h₁]

theorem flowBypassOk_iff : flowBypassOk w e = true ↔
    e.hoistElig = true ∧ w.dsq flowMachineDsq = [] ∧ w.dsq flowOverflowDsq = []
      ∧ ((w.dsq (flowLocalDsq e.cpu.toNat) = [] ∧ nodeQueued w e.cpu.toNat = 0)
        ∨ flowCpuMeetsFairHint (nrQueued w (flowLocalDsq e.cpu.toNat))
          (nodeQueued w e.cpu.toNat) e.vtime e.now = true) := by
  have hn := nodeQueued_nonneg (w := w) e.cpu.toNat
  have hm : nrQueued w flowMachineDsq > 0 ↔ w.dsq flowMachineDsq ≠ [] := by
    rw [gt_iff_lt, ← not_le, nrQueued_nonpos]
  have ho : nrQueued w flowOverflowDsq > 0 ↔ w.dsq flowOverflowDsq ≠ [] := by
    rw [gt_iff_lt, ← not_le, nrQueued_nonpos]
  have hz : nodeQueued w e.cpu.toNat ≤ 0 ↔ nodeQueued w e.cpu.toNat = 0 := by omega
  unfold flowBypassOk
  simp only [hm, ho, hz, nrQueued_nonpos]
  by_cases hme : w.dsq flowMachineDsq = [] <;> by_cases hoe : w.dsq flowOverflowDsq = [] <;>
    simp [hme, hoe, and_comm]

theorem noneEarlier_iff (hm : w.dsq flowMachineDsq = []) :
    NoneEarlier w e.cpu.toNat e.vtime ↔ ∀ q ∈ w.dsq (flowLocalDsq e.cpu.toNat)
      ++ w.dsq (flowNodeDsq (flowDispatchNode w e.cpu.toNat)),
        flowTimeBefore q.key e.vtime = false := by
  simp [NoneEarlier, drainedQueues, hm, or_imp, forall_and]

end Gates

/-- The bypass passes no earlier key exactly when one of the conditions of `BypassSafe` holds. -/
theorem flowEnqueuePlace_keeps_order_iff (w : World) (e : FlowEnqueueTail) :
    ((flowEnqueuePlace w e).1 = true → NoneEarlier w e.cpu.toNat e.vtime) ↔ BypassSafe w e := by
  rw [flowEnqueuePlace_took, flowBypassOk_iff]
  constructor
  · intro h
    rcases hidle : cpuIdle w e.cpu.toNat with _ | _
    · exact .busy hidle
    rcases helig : e.hoistElig with _ | _
    · exact .ineligible helig
    by_cases hm : w.dsq flowMachineDsq = []
    swap
    · exact .machine hm
    by_cases ho : w.dsq flowOverflowDsq = []
    swap
    · exact .reject ho
    by_cases hgate : (w.dsq (flowLocalDsq e.cpu.toNat) = [] ∧ nodeQueued w e.cpu.toNat = 0)
        ∨ flowCpuMeetsFairHint (nrQueued w (flowLocalDsq e.cpu.toNat))
          (nodeQueued w e.cpu.toNat) e.vtime e.now = true
    · exact .none ((noneEarlier_iff hm).mp (h ⟨hidle, helig, hm, ho, hgate⟩))
    · rw [not_or] at hgate
      refine .drain ?_ (by simpa using hgate.2)
      by_contra hq
      rw [not_or, not_not, not_not] at hq
      exact hgate.1 hq
  · rintro hsafe ⟨hidle, helig, hm, ho, hgate⟩
    rw [noneEarlier_iff hm]
    cases hsafe with
    | busy h => simp [h] at hidle
    | ineligible h => simp [h] at helig
    | machine h => exact absurd hm h
    | reject h => exact absurd ho h
    | drain hq h =>
      rcases hgate with ⟨hl, hn⟩ | hmeets
      · rcases hq with hq | hq
        · exact absurd hl hq
        · exact absurd hn hq
      · rw [h] at hmeets
        exact absurd hmeets (by simp)
    | none h => exact h

/-- One task queued on CPU 0, due at 1.5 ms. -/
def onePending : World := (World.boot 2 1 fun _ => 0).setDsq (flowLocalDsq 0) [⟨7, 1500000⟩]

/-- An arrival at time 1000 with key 2 ms on CPU 0. -/
def laterArrival : FlowEnqueueTail := ⟨0, 2000000, 1000, 0, 0, false, true⟩

/-- One queued task drains in a millisecond by the depth estimate, so a later key jumps it. -/
theorem flowEnqueuePlace_overtakes : (flowEnqueuePlace onePending laterArrival).1 = true
    ∧ ¬ NoneEarlier onePending (laterArrival.cpu.toNat) laterArrival.vtime := by
  refine ⟨by decide, fun h => ?_⟩
  have hq := h (flowLocalDsq 0) (by simp [drainedQueues, laterArrival]) ⟨7, 1500000⟩
    (by simp [onePending, World.setDsq])
  exact absurd hq (by decide)

end ScxFlow
