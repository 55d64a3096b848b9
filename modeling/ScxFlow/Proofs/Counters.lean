import ScxFlow.Proofs.Effects
import ScxFlow.Proofs.Words
import ScxFlow.Snapshot
import ScxFlow.System
import Mathlib.Algebra.BigOperators.Group.List.Basic
import Mathlib.Algebra.GroupWithZero.Nat
import Mathlib.Data.List.Perm.Basic

/-!
# What a reader of the counters is told

Every answer sums the rows of the CPUs on the list, and the reader reports the difference of two
answers with wrapping subtraction.  A reseed between the two may drop a CPU with its whole history
or take one on with its own, so an interval is reported as it was counted exactly where the two
histories balance what was counted off the list; `reported_iff` says so for one interval, and the
runs follow.
-/

namespace ScxFlow

section Run

/-- One increment of a row. -/
structure Count where
  cpu : ℕ
  counter : Counter
  amount : UInt64

/-- The daemon and one reader, with the world and the list of the last answer and what was counted
since. -/
structure Polled where
  world : World
  sched : Scheduler
  prev : Metrics
  lastWorld : World
  lastCpus : List UInt32
  since : List Count

/-- A reader that connects, which takes a first answer. -/
def Polled.open (w : World) (s : Scheduler) (elapsed : ℕ) : Polled :=
  ⟨w, s, getMetrics w s elapsed, w, s.onlineCpus, []⟩

/-- What happens between the polls, and a poll. -/
inductive PollOp
  | count (k : Kernel) (c : Counter) (n : UInt64)
  | reseed (next : List TopoRow)
  | poll (elapsed : ℕ)

/-- One report of the reader, with what was counted in its interval. -/
structure Report where
  prev : Metrics
  cur : Metrics
  delta : Metrics
  counts : List Count

def Polled.step (s : Polled) : PollOp → Polled
  | .count k c n =>
    { s with
      world := flowCount s.world k c n
      since := s.since ++ [⟨k.smpCpu, c, n⟩] }
  | .reseed next =>
    { s with
      sched := (s.sched.reseed s.world next).1
      world := (s.sched.reseed s.world next).2 }
  | .poll elapsed =>
    { s with
      prev := getMetrics s.world s.sched elapsed
      lastWorld := s.world
      lastCpus := s.sched.onlineCpus
      since := [] }

/-- The polls of one reader, with its reports as their log. -/
def polls : Machine Polled PollOp Report where
  step := Polled.step
  out s l := match l with
    | .poll elapsed =>
      let cur := getMetrics s.world s.sched elapsed
      [⟨s.prev, cur, cur.delta s.prev, s.since⟩]
    | _ => []

end Run

section Sums

/-- The rows of the CPUs of a list, once for each time a CPU is on it. -/
def listed (w : World) (cpus : List UInt32) (c : Counter) : ℕ :=
  (cpus.map fun id => (readStats w id.toNat c).toNat).sum

/-- What was counted on one CPU. -/
def countedOn (es : List Count) (c : Counter) (cpu : ℕ) : ℕ :=
  ((es.filter fun e => e.counter = c ∧ e.cpu = cpu).map fun e => e.amount.toNat).sum

/-- What was counted on all CPUs. -/
def counted (es : List Count) (c : Counter) : ℕ :=
  ((es.filter fun e => e.counter = c).map fun e => e.amount.toNat).sum

/-- Short of saturation: every increment fits its row, on a CPU that has one, and every answer fits
its sum. -/
def Short (s : Polled) : PollOp → Prop
  | .count k c n =>
    statsLive s.world k ∧ (s.world.cpuStats k.smpCpu c).toNat + n.toNat < 2 ^ 64
  | .reseed _ => True
  | .poll _ => ∀ c, listed s.world s.sched.onlineCpus c < 2 ^ 64

/-- Since the last answer, for every counter: what the CPUs new on the list had counted before, and
what was counted since on the list, come to what the CPUs dropped had counted before and all that
was counted since. -/
def Balanced (s : Polled) : PollOp → Prop
  | .poll _ => ∀ c,
    listed s.lastWorld (s.sched.onlineCpus.diff s.lastCpus) c
        + (s.sched.onlineCpus.map fun id => countedOn s.since c id.toNat).sum
      = listed s.lastWorld (s.lastCpus.diff s.sched.onlineCpus) c + counted s.since c
  | _ => True

/-- No counter went back, and every difference is what was counted. -/
def Reported (r : Report) : Prop :=
  r.delta.rejects = 0
    ∧ ∀ c, r.prev.counters c ≤ r.cur.counters c
      ∧ (r.delta.counters c).toNat = counted r.counts c

theorem foldl_flowSatAdd (f : UInt32 → UInt64) : ∀ (l : List UInt32) (a : UInt64),
    (l.foldl (fun sum id => flowSatAdd sum (f id)) a).toNat
      = min (a.toNat + (l.map fun id => (f id).toNat).sum) (2 ^ 64 - 1)
  | [], a => by
    have := a.toNat_lt
    simp
    omega
  | id :: l, a => by
    rw [List.foldl_cons, foldl_flowSatAdd f l, flowSatAdd_toNat, List.map_cons, List.sum_cons]
    omega

theorem getMetrics_counters {w : World} {s : Scheduler} {c : Counter}
    (h : listed w s.onlineCpus c < 2 ^ 64) (elapsed : ℕ) :
    ((getMetrics w s elapsed).counters c).toNat = listed w s.onlineCpus c := by
  show (s.onlineCpus.foldl (fun sum id => flowSatAdd sum (readStats w id.toNat c)) 0).toNat = _
  rw [foldl_flowSatAdd fun id => readStats w id.toNat c]
  unfold listed at h ⊢
  simp only [UInt64.toNat_zero, Nat.zero_add]
  omega

/-- The CPUs new on a list and the CPUs dropped from it make up the difference of two lists. -/
theorem listed_diff (w : World) (old new : List UInt32) (c : Counter) :
    listed w new c + listed w (old.diff new) c = listed w old c + listed w (new.diff old) c := by
  have hperm : (new ++ old.diff new).Perm (old ++ new.diff old) := by
    rw [List.perm_iff_count]
    intro a
    rw [List.count_append, List.count_append, List.count_diff, List.count_diff]
    omega
  have hsum := (hperm.map fun id => (readStats w id.toNat c).toNat).sum_eq
  rwa [List.map_append, List.map_append, List.sum_append, List.sum_append] at hsum

end Sums

section Rows

/-- The sum over the increments of one kind, after one more. -/
theorem sum_filter_snoc (P : Count → Prop) [DecidablePred P] (es : List Count) (e : Count) :
    (((es ++ [e]).filter fun e => P e).map fun e => e.amount.toNat).sum
      = ((es.filter fun e => P e).map fun e => e.amount.toNat).sum
        + if P e then e.amount.toNat else 0 := by
  rw [List.filter_append, List.map_append, List.sum_append]
  congr 1
  by_cases h : P e
  · simp [h]
  · simp [h]

theorem countedOn_snoc (es : List Count) (e : Count) (c : Counter) (cpu : ℕ) :
    countedOn (es ++ [e]) c cpu
      = countedOn es c cpu + if e.counter = c ∧ e.cpu = cpu then e.amount.toNat else 0 :=
  sum_filter_snoc (fun e => e.counter = c ∧ e.cpu = cpu) es e

theorem counted_snoc (es : List Count) (e : Count) (c : Counter) :
    counted (es ++ [e]) c = counted es c + if e.counter = c then e.amount.toNat else 0 :=
  sum_filter_snoc (fun e => e.counter = c) es e

/-- An increment that fits is an addition on its row. -/
theorem flowCount_stats {w : World} {k : Kernel} {c : Counter} {n : UInt64} (hl : statsLive w k)
    (hfit : (w.cpuStats k.smpCpu c).toNat + n.toNat < 2 ^ 64) :
    (flowCount w k c n).cpuStats = Function.update w.cpuStats k.smpCpu
      (Function.update (w.cpuStats k.smpCpu) c (w.cpuStats k.smpCpu c + n)) := by
  unfold flowCount
  rw [if_neg (not_le.mpr hl.2), if_neg (not_le.mpr hl.1)]
  split
  · -- a full row takes nothing more, and nothing more fits
    rename_i hfull
    have hn : n = 0 := by
      rw [hfull, toNat_u64Max] at hfit
      by_contra hne
      have hpos := toNat_pos_iff.mpr hne
      omega
    rw [hn, UInt64.add_zero, Function.update_eq_self, Function.update_eq_self]
  · rfl

theorem flowCount_reads {w : World} {k : Kernel} {c : Counter} {n : UInt64} (hl : statsLive w k)
    (hfit : (w.cpuStats k.smpCpu c).toNat + n.toNat < 2 ^ 64) (cpu : ℕ) (c' : Counter) :
    (readStats (flowCount w k c n) cpu c').toNat
      = (readStats w cpu c').toNat + if c = c' ∧ k.smpCpu = cpu then n.toNat else 0 := by
  have hcpu := hl.2
  unfold readStats
  rw [flowCount_stats hl hfit]
  split
  · rw [if_neg (by omega)]
    rfl
  by_cases he : k.smpCpu = cpu
  · subst he
    by_cases hc : c = c'
    · subst hc
      simp only [Function.update_self, UInt64.toNat_add, and_self, ↓reduceIte]
      exact Nat.mod_eq_of_lt hfit
    · simp [Function.update_of_ne (Ne.symm hc), hc]
  · simp [Function.update_of_ne (Ne.symm he), he]

theorem seedTopoWith_stats (w : World) (rows : List TopoRow) :
    (seedTopoWith w rows).cpuStats = w.cpuStats :=
  List.foldl_observe World.cpuStats w fun w row _ => by
    split
    · rfl
    · rfl

theorem reseed_stats (s : Scheduler) (w : World) (next : List TopoRow) :
    (s.reseed w next).2.cpuStats = w.cpuStats := by
  unfold Scheduler.reseed
  split
  · rfl
  · exact seedTopoWith_stats w _

theorem readStats_congr {w w' : World} (h : w'.cpuStats = w.cpuStats) (cpu : ℕ) :
    readStats w' cpu = readStats w cpu := by
  unfold readStats
  rw [h]

/-- The rows are those of the last answer and what was counted since, and the last answer is the
sum of its rows. -/
structure Tracks (s : Polled) : Prop where
  rows : ∀ (id : UInt32) (c : Counter), (readStats s.world id.toNat c).toNat
    = (readStats s.lastWorld id.toNat c).toNat + countedOn s.since c id.toNat
  prev : ∀ c, (s.prev.counters c).toNat = listed s.lastWorld s.lastCpus c
  rejects : s.prev.rejects = 0

theorem Tracks.open {w : World} {s : Scheduler} (h : ∀ c, listed w s.onlineCpus c < 2 ^ 64)
    (elapsed : ℕ) : Tracks (.open w s elapsed) :=
  ⟨fun _ _ => rfl, fun c => getMetrics_counters (h c) elapsed, rfl⟩

theorem Tracks.step {s : Polled} (h : Tracks s) {l : PollOp} (hl : Short s l) :
    Tracks (s.step l) := by
  cases l with
  | count k c n =>
    refine ⟨fun id c' => ?_, h.prev, h.rejects⟩
    show (readStats (flowCount s.world k c n) id.toNat c').toNat
      = (readStats s.lastWorld id.toNat c').toNat
        + countedOn (s.since ++ [⟨k.smpCpu, c, n⟩]) c' id.toNat
    rw [flowCount_reads hl.1 hl.2, countedOn_snoc, h.rows]
    exact Nat.add_assoc _ _ _
  | reseed next =>
    refine ⟨fun id c => ?_, h.prev, h.rejects⟩
    show (readStats (s.sched.reseed s.world next).2 id.toNat c).toNat = _
    rw [readStats_congr (reseed_stats s.sched s.world next)]
    exact h.rows id c
  | poll elapsed => exact ⟨fun _ _ => rfl, fun c => getMetrics_counters (hl c) elapsed, rfl⟩

end Rows

section Report

/-- The next answer is what its list had at the last one and what was counted on it since. -/
theorem Tracks.listed_now {s : Polled} (h : Tracks s) (cpus : List UInt32) (c : Counter) :
    listed s.world cpus c
      = listed s.lastWorld cpus c + (cpus.map fun id => countedOn s.since c id.toNat).sum := by
  unfold listed
  rw [← List.sum_map_add]
  simp only [h.rows]

/-- An interval is reported as it was counted exactly where it is balanced. -/
theorem reported_iff {s : Polled} (h : Tracks s) {elapsed : ℕ} (hshort : Short s (.poll elapsed)) :
    Reported ⟨s.prev, getMetrics s.world s.sched elapsed,
        (getMetrics s.world s.sched elapsed).delta s.prev, s.since⟩
      ↔ Balanced s (.poll elapsed) := by
  have hone (c : Counter) :
      (s.prev.counters c ≤ (getMetrics s.world s.sched elapsed).counters c
          ∧ (((getMetrics s.world s.sched elapsed).delta s.prev).counters c).toNat
            = counted s.since c)
        ↔ listed s.lastWorld (s.sched.onlineCpus.diff s.lastCpus) c
            + (s.sched.onlineCpus.map fun id => countedOn s.since c id.toNat).sum
          = listed s.lastWorld (s.lastCpus.diff s.sched.onlineCpus) c + counted s.since c := by
    have hcur := getMetrics_counters (hshort c) elapsed
    have hprev := h.prev c
    have hnow := h.listed_now s.sched.onlineCpus c
    have hdiff := listed_diff s.lastWorld s.lastCpus s.sched.onlineCpus c
    rw [UInt64.le_iff_toNat_le]
    constructor
    · rintro ⟨hle, hdelta⟩
      have hsub : (((getMetrics s.world s.sched elapsed).delta s.prev).counters c).toNat = _ :=
        toNat_sub_of_le hle
      omega
    · intro hbal
      have hle : (s.prev.counters c).toNat
          ≤ ((getMetrics s.world s.sched elapsed).counters c).toNat := by omega
      have hsub : (((getMetrics s.world s.sched elapsed).delta s.prev).counters c).toNat = _ :=
        toNat_sub_of_le hle
      exact ⟨hle, by omega⟩
  have hrejects : ((getMetrics s.world s.sched elapsed).delta s.prev).rejects = 0 := by
    show (0 : UInt64) - s.prev.rejects = 0
    rw [h.rejects]
    rfl
  constructor
  · intro hr c
    exact (hone c).mp (hr.2 c)
  · intro hbal
    exact ⟨hrejects, fun c => (hone c).mpr (hbal c)⟩

end Report

section Run

theorem polls_reported_iff (s : Polled) (hs : Tracks s) (ls : List PollOp)
    (hshort : polls.Along Short s ls) :
    (∀ r ∈ polls.log s ls, Reported r) ↔ polls.Along Balanced s ls := by
  have hrun := polls.log_iff_along (I := fun s _ => Tracks s)
    (F := fun h => ∀ r ∈ h, Reported r) (Q := Balanced)
    (fun s l h hl hi => hi.step hl)
    (fun s l h hl hi => by
      cases l with
      | count k c n => simp [polls, Balanced]
      | reseed next => simp [polls, Balanced]
      | poll elapsed =>
        rw [← reported_iff hi hl]
        simp [polls, or_imp, forall_and]) ls hshort (h := []) hs
  simpa using hrun

/-- One balanced step adds to the last answer what it reports. -/
theorem report_sum {s : Polled} (hs : Tracks s) {l : PollOp} (hl : Short s l)
    (hbal : Balanced s l) (c : Counter) :
    (s.prev.counters c).toNat + ((polls.out s l).map fun r => (r.delta.counters c).toNat).sum
      = ((polls.step s l).prev.counters c).toNat := by
  cases l with
  | count k c' n => exact Nat.add_zero _
  | reseed next => exact Nat.add_zero _
  | poll elapsed =>
    obtain ⟨-, hr⟩ := (reported_iff hs hl).mpr hbal
    have hle := UInt64.le_iff_toNat_le.mp (hr c).1
    have hsub : (((getMetrics s.world s.sched elapsed).delta s.prev).counters c).toNat = _ :=
      toNat_sub_of_le hle
    show (s.prev.counters c).toNat
        + ((((getMetrics s.world s.sched elapsed).delta s.prev).counters c).toNat + 0)
      = ((getMetrics s.world s.sched elapsed).counters c).toNat
    rw [hsub]
    exact Nat.add_sub_of_le hle

/-- Balanced intervals: the differences over a run come to the last answer less the first. -/
theorem polls_sum (c : Counter) :
    ∀ (ls : List PollOp) {s : Polled}, Tracks s → polls.Along Short s ls →
      polls.Along Balanced s ls →
      (s.prev.counters c).toNat
          + ((polls.log s ls).map fun r => (r.delta.counters c).toNat).sum
        = ((polls.exec s ls).prev.counters c).toNat
  | [], s, _, _, _ => Nat.add_zero _
  | l :: ls, s, hs, hshort, hbal => by
    have hnext : Tracks (polls.step s l) := hs.step hshort.1
    rw [Machine.log_cons, Machine.exec_cons, List.map_append, List.sum_append, ← Nat.add_assoc,
      report_sum hs hshort.1 hbal.1 c]
    exact polls_sum c ls hnext hshort.2 hbal.2

/-- Short of saturation, no counter of a run of polls, increments and reseeds goes back and every
difference is what its interval counted exactly when every interval is balanced; and then the
differences come to the last answer less the first. -/
theorem metrics_reported_iff (w : World) (sched : Scheduler) (elapsed : ℕ)
    (hfirst : ∀ c, listed w sched.onlineCpus c < 2 ^ 64) (ls : List PollOp)
    (hshort : polls.Along Short (.open w sched elapsed) ls) :
    ((∀ r ∈ polls.log (.open w sched elapsed) ls, Reported r)
        ↔ polls.Along Balanced (.open w sched elapsed) ls)
      ∧ (polls.Along Balanced (.open w sched elapsed) ls → ∀ c,
        ((getMetrics w sched elapsed).counters c).toNat
            + ((polls.log (.open w sched elapsed) ls).map fun r =>
              (r.delta.counters c).toNat).sum
          = ((polls.exec (.open w sched elapsed) ls).prev.counters c).toNat) := by
  have hs := Tracks.open hfirst elapsed
  exact ⟨polls_reported_iff _ hs ls hshort, fun hbal c => polls_sum c ls hs hshort hbal⟩

/-- A CPU's own count, summed over a list that names it `n` times. -/
theorem sum_countOf (cpu amount : ℕ) : ∀ cpus : List UInt32,
    (cpus.map fun id => if cpu = id.toNat then amount else 0).sum
      = amount * (cpus.map UInt32.toNat).count cpu
  | [] => rfl
  | id :: cpus => by
    rw [List.map_cons, List.sum_cons, sum_countOf cpu amount cpus, List.map_cons, List.count_cons]
    by_cases h : cpu = id.toNat
    · rw [if_pos h, if_pos (beq_iff_eq.mpr h.symm), Nat.mul_add, Nat.mul_one, Nat.add_comm]
    · rw [if_neg h, if_neg (fun he => h (beq_iff_eq.mp he).symm), Nat.zero_add, Nat.add_zero]

/-- What is counted on CPUs that a list names once each is what is counted. -/
theorem sum_countedOn (cpus : List UInt32) (c : Counter) (es : List Count)
    (hes : ∀ e ∈ es, (cpus.map UInt32.toNat).count e.cpu = 1) :
    (cpus.map fun id => countedOn es c id.toNat).sum = counted es c := by
  induction es using List.reverseRecOn with
  | nil => simp [countedOn, counted]
  | append_singleton es e ih =>
    have hone := hes e (List.mem_append_right _ List.mem_cons_self)
    simp only [countedOn_snoc, counted_snoc]
    rw [List.sum_map_add, ih fun e' he' => hes e' (List.mem_append_left _ he')]
    by_cases hc : e.counter = c
    · simp only [hc, true_and, ↓reduceIte]
      rw [sum_countOf, hone, Nat.mul_one]
    · simp [hc]

/-- An interval that keeps the list is balanced, where the list names every CPU that counts once. -/
theorem balanced_of_kept {s : Polled} (elapsed : ℕ) (hkept : s.sched.onlineCpus = s.lastCpus)
    (hall : ∀ e ∈ s.since, (s.sched.onlineCpus.map UInt32.toNat).count e.cpu = 1) :
    Balanced s (.poll elapsed) := by
  intro c
  rw [sum_countedOn s.sched.onlineCpus c s.since hall, hkept]

end Run

section Offline

/-- Two CPUs on the list. -/
def Scheduler.pair : Scheduler :=
  ⟨[0, 1], [⟨0, 0xffffffff, 0⟩, ⟨1, 0xffffffff, 0⟩]⟩

/-- CPU 1 counts five inserts, which are reported; then a resume finds CPU 0 alone. -/
def cpuDropped : List PollOp :=
  [.count { Kernel.plain 1000 with smpCpu := 1 } .inserts 5, .poll 1000,
    .reseed [⟨0, 0xffffffff, 0⟩], .poll 2000]

theorem listed_boot_pair (c : Counter) :
    listed (World.boot 2 1 fun _ => 0) Scheduler.pair.onlineCpus c < 2 ^ 64 := by
  cases c <;> exact Nat.succ_pos _

theorem short_cpuDropped :
    polls.Along Short (.open (World.boot 2 1 fun _ => 0) .pair 0) cpuDropped := by
  refine ⟨⟨⟨Nat.lt_succ_self 1, by decide⟩, by decide⟩, fun c => ?_, trivial, fun c => ?_, trivial⟩
  · cases c <;> decide
  · cases c <;> decide

/-- The second report of the run: the inserts fall from five to none, nothing was counted, and the
difference wraps. -/
theorem metrics_drop_cpu :
    polls.Along Short (.open (World.boot 2 1 fun _ => 0) .pair 0) cpuDropped
      ∧ ((polls.log (.open (World.boot 2 1 fun _ => 0) .pair 0) cpuDropped).map fun r =>
          (r.prev.counters .inserts, r.cur.counters .inserts, r.delta.counters .inserts,
            counted r.counts .inserts))
        = [(0, 5, 5, 5), (5, 0, 18446744073709551611, 0)] :=
  ⟨short_cpuDropped, by decide⟩

/-- CPU 0 counts five inserts, which are reported; then a resume drops CPU 1, which has counted
none, and CPU 0 counts three more. -/
def quietDropped : List PollOp :=
  [.count (Kernel.plain 1000) .inserts 5, .poll 1000, .reseed [⟨0, 0xffffffff, 0⟩],
    .count (Kernel.plain 1500) .inserts 3, .poll 2000]

theorem short_quietDropped :
    polls.Along Short (.open (World.boot 2 1 fun _ => 0) .pair 0) quietDropped := by
  refine ⟨⟨⟨Nat.succ_pos 1, by decide⟩, by decide⟩, fun c => ?_, trivial,
    ⟨⟨Nat.succ_pos 1, by decide⟩, by decide⟩, fun c => ?_, trivial⟩
  · cases c <;> decide
  · cases c <;> decide

/-- The first interval keeps the list, and the second drops a CPU without a history. -/
theorem balanced_quietDropped :
    polls.Along Balanced (.open (World.boot 2 1 fun _ => 0) .pair 0) quietDropped := by
  refine ⟨trivial, balanced_of_kept 1000 rfl (by decide), trivial, trivial, fun c => ?_, trivial⟩
  cases c <;> decide

theorem metrics_reported_iff_quiet :
    ((polls.log (.open (World.boot 2 1 fun _ => 0) .pair 0) quietDropped).map fun r =>
        (r.prev.counters .inserts, r.cur.counters .inserts)) = [(0, 5), (5, 8)]
      ∧ (∀ r ∈ polls.log (.open (World.boot 2 1 fun _ => 0) .pair 0) quietDropped, Reported r)
      ∧ ((polls.log (.open (World.boot 2 1 fun _ => 0) .pair 0) quietDropped).map fun r =>
        (r.delta.counters .inserts).toNat).sum = 8 := by
  have hreports := metrics_reported_iff (World.boot 2 1 fun _ => 0) .pair 0 listed_boot_pair
    quietDropped short_quietDropped
  have hsum := hreports.2 balanced_quietDropped .inserts
  exact ⟨by decide, hreports.1.mpr balanced_quietDropped, (Nat.zero_add _).symm.trans hsum⟩

end Offline

end ScxFlow
