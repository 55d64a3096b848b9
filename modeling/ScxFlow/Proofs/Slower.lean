import ScxFlow.Proofs.SelectOrder

/-!
# How much slower a CPU the first scan may pass over

The first scan compares capacities with a reference, the lowest capacity it has taken since a
clearly slower CPU came first, and not with the CPU it holds.  The reference stays within 64 units
above every candidate, so a clearly slower CPU loses only to one that was taken above the reference
and not taken over from since.  The CPU held stays within 64 units above the reference, so 128 units
are the most it may pass over.
-/

namespace ScxFlow

variable {w : World} {cap : ℕ → UInt32} {t : FlowScanTail} {seen : List ℕ} {p : ℕ}

/-- The capacity a scan reads of a CPU, as a number. -/
def unitsOf (cap : ℕ → UInt32) (cpu : ℕ) : ℕ := (flowCpuUnits cap cpu).toNat

/-- What the first scan knows of the CPUs seen past the gates: the one it holds, and the reference,
which is the capacity of one of them. -/
structure SsfHeld (cap : ℕ → UInt32) (seen : List ℕ) (b : SsfBest) : Prop where
  cpu_mem : b.cpu ∈ seen
  exists_units : ∃ r ∈ seen, unitsOf cap r = b.units.toNat
  units_le : b.units.toNat ≤ unitsOf cap b.cpu
  le_units : unitsOf cap b.cpu ≤ b.units.toNat + 64
  reference_le : ∀ c ∈ seen, b.units.toNat ≤ unitsOf cap c + 64

theorem SsfHeld.first (w : World) (cap : ℕ → UInt32) (t : FlowScanTail) (p : ℕ) :
    SsfHeld cap [p] (ssfRow w cap t p) where
  cpu_mem := List.mem_singleton.mpr rfl
  exists_units := ⟨p, List.mem_singleton.mpr rfl, rfl⟩
  units_le := Nat.le_refl _
  le_units := Nat.le_add_right _ _
  reference_le := fun c hc => by
    rw [List.mem_singleton.mp hc]
    exact Nat.le_add_right _ _

/-- A held CPU that stays passes over a CPU no more than 64 units below the reference. -/
theorem SsfHeld.keep {b : SsfBest} (h : SsfHeld cap seen b)
    (hp : b.units.toNat ≤ unitsOf cap p + 64) : SsfHeld cap (seen ++ [p]) b where
  cpu_mem := List.mem_append_left _ h.cpu_mem
  exists_units := by
    obtain ⟨r, hr, he⟩ := h.exists_units
    exact ⟨r, List.mem_append_left _ hr, he⟩
  units_le := h.units_le
  le_units := h.le_units
  reference_le := fun c hc => by
    rcases List.mem_append.mp hc with hc | hc
    · exact h.reference_le c hc
    · rw [List.mem_singleton.mp hc]
      exact hp

/-- A clearly slower CPU is taken with its own capacity as the reference. -/
theorem SsfHeld.reset {b : SsfBest} (h : SsfHeld cap seen b)
    (hp : unitsOf cap p + 64 < b.units.toNat) :
    SsfHeld cap (seen ++ [p]) (ssfRow w cap t p) where
  cpu_mem := List.mem_append_right _ (List.mem_singleton.mpr rfl)
  exists_units := ⟨p, List.mem_append_right _ (List.mem_singleton.mpr rfl), rfl⟩
  units_le := Nat.le_refl _
  le_units := Nat.le_add_right _ _
  reference_le := fun c hc => by
    rcases List.mem_append.mp hc with hc | hc
    · have href := h.reference_le c hc
      show unitsOf cap p ≤ unitsOf cap c + 64
      omega
    · rw [List.mem_singleton.mp hc]
      exact Nat.le_add_right _ _

/-- A CPU within 64 units of the reference is taken under the lower of the two capacities. -/
theorem SsfHeld.take {b : SsfBest} (h : SsfHeld cap seen b) {units : UInt32}
    (hunits : units.toNat = min (unitsOf cap p) b.units.toNat)
    (hslow : b.units.toNat ≤ unitsOf cap p + 64) (hfast : unitsOf cap p ≤ b.units.toNat + 64) :
    SsfHeld cap (seen ++ [p]) { ssfRow w cap t p with units := units } where
  cpu_mem := List.mem_append_right _ (List.mem_singleton.mpr rfl)
  exists_units := by
    rcases Nat.le_total (unitsOf cap p) b.units.toNat with hle | hle
    · exact ⟨p, List.mem_append_right _ (List.mem_singleton.mpr rfl),
        by rw [hunits, min_eq_left hle]⟩
    · rw [hunits, min_eq_right hle]
      exact (h.keep hslow).exists_units
  units_le := by
    show units.toNat ≤ unitsOf cap p
    omega
  le_units := by
    show unitsOf cap p ≤ units.toNat + 64
    omega
  reference_le := fun c hc => by
    have href := (h.keep hslow).reference_le c hc
    show units.toNat ≤ unitsOf cap c + 64
    omega

/-- What `flow_ssf_step` compares within the 64 units: the node, then the minimum, then the tie. -/
def ssfWins (prevCpu : ℤ) (held peer : SsfBest) : Bool :=
  if peer.isLocal && !held.isLocal then true
  else if !peer.isLocal && held.isLocal then false
  else if !flowTimeBefore peer.min held.min && decide (peer.min ≠ held.min) then false
  else if decide (peer.min = held.min) && !tieWins prevCpu peer.cpu held.cpu then false
  else true

/-- A peer takes over from the CPU held: clearly slower than the reference, or not clearly faster
and the winner within the 64 units. -/
def SsfOvertakes (prevCpu : ℤ) (held peer : SsfBest) : Prop :=
  peer.units.toNat + 64 < held.units.toNat
  ∨ peer.units.toNat ≤ held.units.toNat + 64 ∧ ssfWins prevCpu held peer = true

/-- What one comparison can do: a clearly slower peer resets the reference, a winner within the 64
units takes over under the lower capacity, and any other peer leaves all as it is. -/
theorem ssfTake_cases (prevCpu : ℤ) (held peer : SsfBest) :
    (peer.units.toNat + 64 < held.units.toNat ∧ ssfTake prevCpu (some held) peer = peer)
    ∨ (held.units.toNat ≤ peer.units.toNat + 64 ∧ peer.units.toNat ≤ held.units.toNat + 64
      ∧ ssfWins prevCpu held peer = true
      ∧ ssfTake prevCpu (some held) peer
        = { peer with units := if peer.units < held.units then peer.units else held.units })
    ∨ (¬SsfOvertakes prevCpu held peer ∧ ssfTake prevCpu (some held) peer = held) := by
  have hadd (u : UInt32) : (u.toUInt64 + 64).toNat = u.toNat + 64 :=
    toNat_cursor_add u (by decide)
  unfold ssfTake SsfOvertakes ssfWins
  simp only [gt_iff_lt, UInt64.lt_iff_toNat_lt, hadd, UInt32.toNat_toUInt64]
  by_cases hslow : peer.units.toNat + 64 < held.units.toNat
  · exact Or.inl ⟨hslow, if_pos hslow⟩
  by_cases hfast : held.units.toNat + 64 < peer.units.toNat
  · exact Or.inr (Or.inr ⟨fun h => by omega, by rw [if_neg hslow, if_pos hfast]⟩)
  rw [if_neg hslow, if_neg hfast]
  generalize (if peer.units < held.units then peer.units else held.units) = units
  right
  split_ifs
  · exact Or.inl ⟨by omega, by omega, rfl, rfl⟩
  · exact Or.inr ⟨by simp [hslow], rfl⟩
  · exact Or.inr ⟨by simp [hslow], rfl⟩
  · exact Or.inr ⟨by simp [hslow], rfl⟩
  · exact Or.inl ⟨by omega, by omega, rfl, rfl⟩

theorem lower_units_toNat (a b : UInt32) :
    (if a < b then a else b).toNat = min a.toNat b.toNat := by
  rw [apply_ite UInt32.toNat]
  simp only [UInt32.lt_iff_toNat_lt]
  split_ifs <;> omega

/-- One comparison of the first scan keeps the reference. -/
theorem SsfHeld.step {b : SsfBest} (h : SsfHeld cap seen b) :
    SsfHeld cap (seen ++ [p]) (ssfTake t.prevCpu (some b) (ssfRow w cap t p)) := by
  have hrow : (ssfRow w cap t p).units.toNat = unitsOf cap p := rfl
  rcases ssfTake_cases t.prevCpu b (ssfRow w cap t p) with
    ⟨hslow, he⟩ | ⟨hslow, hfast, -, he⟩ | ⟨hkeep, he⟩
  · rw [he]
    exact h.reset hslow
  · rw [he]
    exact h.take (lower_units_toNat _ _) hslow hfast
  · rw [he]
    refine h.keep (Nat.le_of_not_lt fun hslow => hkeep (Or.inl ?_))
    rwa [hrow]

section Scan
variable (w cap t)

/-- The candidates of the first scan in the order it comes to them, none on a host out of bounds. -/
def ssfSeen : List ℕ :=
  if 2 ≤ w.nrCpuIds ∧ w.nrCpuIds ≤ flowMaxCpus then
    (ssfWindow w.nrCpuIds t.cursor.toNat).filter (scanGate w t)
  else []

/-- The CPU and the reference the first scan holds behind some candidates. -/
def ssfBehind (l : List ℕ) : Option SsfBest :=
  l.foldl (fun best p => some (ssfTake t.prevCpu best (ssfRow w cap t p))) none

theorem ssfBehind_append (l : List ℕ) (p : ℕ) :
    ssfBehind w cap t (l ++ [p])
      = some (ssfTake t.prevCpu (ssfBehind w cap t l) (ssfRow w cap t p)) := by
  unfold ssfBehind
  rw [List.foldl_append, List.foldl_cons, List.foldl_nil]

theorem ssfScan_best : (ssfScan w cap t).best = ssfBehind w cap t (ssfSeen w t) := by
  unfold ssfSeen
  split_ifs with hbounds
  · rw [ssfScan_eq hbounds.1 hbounds.2]
    unfold ssfVisit ssfBehind
    rw [foldl_scanVisit_best, List.foldl_filter]
  · rcases h : (ssfScan w cap t).best with _ | b
    · rfl
    · exact absurd (host_of_scanLoop h) hbounds

end Scan

theorem mem_ssfSeen (hn : 2 ≤ w.nrCpuIds ∧ w.nrCpuIds ≤ flowMaxCpus) {c : ℕ} :
    c ∈ ssfSeen w t ↔ c ∈ ssfCandidates w t := by
  unfold ssfSeen
  rw [if_pos hn, mem_ssfCandidates]

/-- The scan keeps the reference behind every list of candidates. -/
theorem ssfHeld_behind (l : List ℕ) :
    ∀ {b : SsfBest}, ssfBehind w cap t l = some b → SsfHeld cap l b := by
  induction l using List.reverseRecOn with
  | nil => intro b hb; exact absurd hb.symm (Option.some_ne_none b)
  | append_singleton l p ih =>
    intro b hb
    rw [ssfBehind_append] at hb
    obtain rfl := Option.some.inj hb
    rcases hl : ssfBehind w cap t l with _ | held
    · rcases List.eq_nil_or_concat l with rfl | ⟨l, q, rfl⟩
      · exact SsfHeld.first w cap t p
      · rw [List.concat_eq_append, ssfBehind_append] at hl
        exact absurd hl (Option.some_ne_none _)
    · exact (ih hl).step

/-- A CPU held stays behind candidates none of which takes over from it. -/
theorem ssfBehind_stays {pre : List ℕ} {b : SsfBest} (hb : ssfBehind w cap t pre = some b) :
    ∀ {post : List ℕ}, (∀ q ∈ post, ¬SsfOvertakes t.prevCpu b (ssfRow w cap t q)) →
      ssfBehind w cap t (pre ++ post) = some b := by
  intro post
  induction post using List.reverseRecOn with
  | nil => intro _; rwa [List.append_nil]
  | append_singleton post q ih =>
    intro hpost
    have hq := hpost q (List.mem_append_right _ (List.mem_singleton.mpr rfl))
    rw [← List.append_assoc, ssfBehind_append,
      ih fun r hr => hpost r (List.mem_append_left _ hr)]
    rcases ssfTake_cases t.prevCpu b (ssfRow w cap t q) with
      ⟨hslow, -⟩ | ⟨-, hfast, hwins, -⟩ | ⟨-, he⟩
    · exact absurd (Or.inl hslow) hq
    · exact absurd (Or.inr ⟨hfast, hwins⟩) hq
    · rw [he]

/-- The CPU held behind some candidates is the last one that took over. -/
theorem exists_last_taken (l : List ℕ) {b : SsfBest} (h : ssfBehind w cap t l = some b) :
    ∃ pre p post, l = pre ++ p :: post
      ∧ b = ssfTake t.prevCpu (ssfBehind w cap t pre) (ssfRow w cap t p)
      ∧ (∀ held, ssfBehind w cap t pre = some held →
        SsfOvertakes t.prevCpu held (ssfRow w cap t p))
      ∧ ∀ q ∈ post, ¬SsfOvertakes t.prevCpu b (ssfRow w cap t q) := by
  induction l using List.reverseRecOn generalizing b with
  | nil => exact absurd h.symm (Option.some_ne_none b)
  | append_singleton l x ih =>
    rw [ssfBehind_append] at h
    obtain rfl := Option.some.inj h
    rcases hl : ssfBehind w cap t l with _ | held
    · exact ⟨l, x, [], rfl, by rw [hl],
        fun _ hnone => absurd (hl.symm.trans hnone).symm (Option.some_ne_none _),
        fun _ hq => absurd hq List.not_mem_nil⟩
    have hlast (hover : SsfOvertakes t.prevCpu held (ssfRow w cap t x)) :
        ∃ pre p post, l ++ [x] = pre ++ p :: post
          ∧ ssfTake t.prevCpu (some held) (ssfRow w cap t x)
            = ssfTake t.prevCpu (ssfBehind w cap t pre) (ssfRow w cap t p)
          ∧ (∀ held, ssfBehind w cap t pre = some held →
            SsfOvertakes t.prevCpu held (ssfRow w cap t p))
          ∧ ∀ q ∈ post, ¬SsfOvertakes t.prevCpu
            (ssfTake t.prevCpu (some held) (ssfRow w cap t x)) (ssfRow w cap t q) := by
      refine ⟨l, x, [], rfl, by rw [hl], fun other hother => ?_,
        fun _ hq => absurd hq List.not_mem_nil⟩
      obtain rfl := Option.some.inj (hl.symm.trans hother)
      exact hover
    rcases ssfTake_cases t.prevCpu held (ssfRow w cap t x) with
      ⟨hslow, -⟩ | ⟨-, hfast, hwins, -⟩ | ⟨hkeep, he⟩
    · exact hlast (Or.inl hslow)
    · exact hlast (Or.inr ⟨hfast, hwins⟩)
    · obtain ⟨pre, p, post, rfl, hb, hover, hstay⟩ := ih hl
      rw [he]
      refine ⟨pre, p, post ++ [x], by simp, hb, hover, fun q hq => ?_⟩
      rcases List.mem_append.mp hq with hq | hq
      · exact hstay q hq
      · rw [List.mem_singleton.mp hq]
        exact hkeep

section Close
variable (w cap t)

/-- A peer above the reference wins within the 64 units: the branch that goes on with the lower
capacity although no CPU held has it any more. -/
def SsfTakesAbove (prevCpu : ℤ) (held peer : SsfBest) : Prop :=
  held.units.toNat < peer.units.toNat ∧ peer.units.toNat ≤ held.units.toNat + 64
    ∧ ssfWins prevCpu held peer = true

/-- A visit that takes a CPU above the reference does no harm where a later candidate takes over
from it, or where no candidate is near the reference and clearly slower than the CPU. -/
def SsfKeepsClose : Prop :=
  ∀ pre p post held, ssfSeen w t = pre ++ p :: post → ssfBehind w cap t pre = some held →
    SsfTakesAbove t.prevCpu held (ssfRow w cap t p) →
    (∃ q ∈ post, SsfOvertakes t.prevCpu { ssfRow w cap t p with units := held.units }
      (ssfRow w cap t q))
    ∨ ¬∃ c ∈ ssfSeen w t,
      held.units.toNat ≤ unitsOf cap c + 64 ∧ unitsOf cap c + 64 < unitsOf cap p

/-- No candidate is near a second one and clearly slower than a third one that is near the
second from above. -/
def SsfUnbridged : Prop :=
  ∀ r ∈ ssfSeen w t, ∀ p ∈ ssfSeen w t, ∀ c ∈ ssfSeen w t,
    unitsOf cap r < unitsOf cap p → unitsOf cap p ≤ unitsOf cap r + 64 →
    unitsOf cap r ≤ unitsOf cap c + 64 → unitsOf cap p ≤ unitsOf cap c + 64

end Close

/-- The reference is the capacity of a candidate, so capacities no candidate bridges do no harm in
any order and at any locality and minima. -/
theorem SsfUnbridged.keepsClose (h : SsfUnbridged w cap t) : SsfKeepsClose w cap t := by
  intro pre p post held hseen hpre ⟨habove, hnear, _⟩
  obtain ⟨r, hr, hunits⟩ := (ssfHeld_behind pre hpre).exists_units
  refine Or.inr fun ⟨c, hc, hlow, hfar⟩ => ?_
  have hrp : ∀ x ∈ pre, x ∈ ssfSeen w t := fun x hx => hseen ▸ List.mem_append_left _ hx
  have hp : p ∈ ssfSeen w t := hseen ▸ List.mem_append_right _ List.mem_cons_self
  have hclose := h r (hrp r hr) p hp c hc (hunits ▸ habove) (hunits ▸ hnear) (hunits ▸ hlow)
  omega

theorem SsfTakesAbove.take_eq {prevCpu : ℤ} {held peer : SsfBest}
    (h : SsfTakesAbove prevCpu held peer) :
    ssfTake prevCpu (some held) peer = { peer with units := held.units } := by
  obtain ⟨habove, hfast, hwins⟩ := h
  have hlow : ¬peer.units < held.units := by
    rw [UInt32.lt_iff_toNat_lt]
    omega
  rcases ssfTake_cases prevCpu held peer with ⟨hslow, -⟩ | ⟨-, -, -, he⟩ | ⟨hkeep, -⟩
  · omega
  · rw [he, if_neg hlow]
  · exact absurd (Or.inr ⟨hfast, hwins⟩) hkeep

/-- The CPU a scan ends with is clearly faster than no candidate unless it was taken above the
reference. -/
theorem SsfKeepsClose.close (h : SsfKeepsClose w cap t) {b : SsfBest}
    (hb : ssfBehind w cap t (ssfSeen w t) = some b) :
    ∀ c ∈ ssfSeen w t, unitsOf cap b.cpu ≤ unitsOf cap c + 64 := by
  have href := (ssfHeld_behind _ hb).reference_le
  -- a CPU that brought its own capacity as the reference is near all candidates
  have hown (hunits : b.units.toNat = unitsOf cap b.cpu) :
      ∀ c ∈ ssfSeen w t, unitsOf cap b.cpu ≤ unitsOf cap c + 64 := fun c hc => by
    rw [← hunits]
    exact href c hc
  obtain ⟨pre, p, post, hseen, he, hover, hstay⟩ := exists_last_taken _ hb
  rcases hpre : ssfBehind w cap t pre with _ | held
  · rw [hpre] at he
    exact hown (by rw [he]; rfl)
  rw [hpre] at he
  rcases ssfTake_cases t.prevCpu held (ssfRow w cap t p) with
    ⟨-, htake⟩ | ⟨-, hfast, hwins, htake⟩ | ⟨hkeep, -⟩
  · exact hown (by rw [he, htake]; rfl)
  · rcases Nat.lt_or_ge held.units.toNat (ssfRow w cap t p).units.toNat with habove | hbelow
    · have hup : SsfTakesAbove t.prevCpu held (ssfRow w cap t p) := ⟨habove, hfast, hwins⟩
      rw [hup.take_eq] at he
      rw [he] at href hstay ⊢
      rcases h pre p post held hseen hpre hup with ⟨q, hq, hover⟩ | hgap
      · exact absurd hover (hstay q hq)
      · exact fun c hc => Nat.le_of_not_lt fun hfar => hgap ⟨c, hc, href c hc, hfar⟩
    · refine hown ?_
      rw [he, htake]
      exact (lower_units_toNat _ _).trans (min_eq_left hbelow)
  · exact absurd (hover held hpre) hkeep

/-- Capacities in which CPU 2 lies above CPU 1 and at most 64 units above CPU 3. -/
def capUnbridged (cpu : ℕ) : UInt32 := if cpu = 1 then 100 else if cpu = 2 then 150 else 90

section Pick

/-- The first scan picks within 64 units above the capacity of one of its candidates, its reference,
and no candidate is more than 64 units below the reference.  So none is more than 128 units below
the pick, and one more than 64 units below it is below the reference and the reference below the
pick. -/
theorem flowSsfPick_units {b : ℕ} (h : flowSsfPick w cap t = some b) :
    b ∈ ssfCandidates w t ∧ ∃ r ∈ ssfCandidates w t,
      unitsOf cap r ≤ unitsOf cap b ∧ unitsOf cap b ≤ unitsOf cap r + 64
      ∧ ∀ c ∈ ssfCandidates w t, unitsOf cap r ≤ unitsOf cap c + 64
        ∧ unitsOf cap b ≤ unitsOf cap c + 128
        ∧ (unitsOf cap b ≤ unitsOf cap c + 64
          ∨ unitsOf cap c < unitsOf cap r ∧ unitsOf cap r < unitsOf cap b) := by
  obtain ⟨held, hheld, rfl⟩ := Option.map_eq_some_iff.mp h
  have hbounds := host_of_scanLoop hheld
  rw [ssfScan_best] at hheld
  have hinv := ssfHeld_behind _ hheld
  have hlow := hinv.units_le
  have hhigh := hinv.le_units
  obtain ⟨r, hr, hunits⟩ := hinv.exists_units
  refine ⟨(mem_ssfSeen hbounds).mp hinv.cpu_mem, r, (mem_ssfSeen hbounds).mp hr, by omega, by omega,
    fun c hc => ?_⟩
  have href := hinv.reference_le c ((mem_ssfSeen hbounds).mpr hc)
  refine ⟨by omega, by omega, ?_⟩
  rcases Nat.lt_or_ge (unitsOf cap c + 64) (unitsOf cap held.cpu) with hfar | hnear
  · exact Or.inr ⟨by omega, by omega⟩
  · exact Or.inl hnear

/-- Capacities in which CPU 1 lies between a slower and a faster CPU, 64 units from each. -/
def capBridged (cpu : ℕ) : UInt32 := if cpu = 1 then 100 else if cpu = 2 then 164 else 36

theorem flowSsfPick_bridged :
    flowSsfPick .twoNodes capBridged (selectTail .twoNodes (.plain 0) 0 0 0 3) = some 2 := by
  decide

end Pick

end ScxFlow
