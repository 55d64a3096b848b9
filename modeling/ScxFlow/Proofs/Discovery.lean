import ScxFlow.Attach
import ScxFlow.Daemon
import ScxFlow.Proofs.CpuListParse
import ScxFlow.Proofs.Routing

/-!
# What a discovery seeds

Either source leaves rows in rank order with each CPU once, inside both bounds and never its own
sibling, so their text reads back as their CPUs (`topoRows_text`), and every CPU that `flow_init`
counts drains the queue of the node its row names (`discovery_routing`).  The flags of the fallback
mark every thread of a core but its first (`fallback_smt`).
-/

namespace ScxFlow

section Rows

/-- The mask holds each id once, and ids are words. -/
def HostTopology.MaskOk (t : HostTopology) : Prop := t.span.Nodup ∧ ∀ id ∈ t.span, id < 2 ^ 32

/-- Rows as the BPF view takes them. -/
structure Seedable (rows : List TopoRow) : Prop where
  rank : rows.Pairwise fun a b => a.cpu.toNat < b.cpu.toNat
  cpus : ∀ row ∈ rows, row.cpu.toNat < cpuBound
  nodes : ∀ row ∈ rows, row.node.toNat < nodeBound
  sibs : ∀ row ∈ rows, row.sib ≠ row.cpu

theorem capNode_lt (node : UInt32) : (capNode node).toNat < nodeBound := by
  unfold capNode
  split
  · assumption
  · decide

theorem noSibling_ne {cpu : UInt32} (h : cpu.toNat < cpuBound) : noSibling ≠ cpu := by
  rintro rfl
  exact absurd h (by decide)

theorem toNat_ofNat_id {id : ℕ} (h : id < 2 ^ 32) : (UInt32.ofNat id).toNat = id := by
  rw [UInt32.toNat_ofNat']
  exact Nat.mod_eq_of_lt h

theorem HostTopology.sibling_ne (t : HostTopology) {cpu : UInt32} (h : cpu.toNat < cpuBound) :
    t.sibling cpu ≠ cpu := by
  unfold HostTopology.sibling
  simp only
  generalize hs : Option.filter (fun s => decide (s ≠ cpu)) _ = other
  cases other with
  | none => exact noSibling_ne h
  | some sib => exact of_decide_eq_true (Option.filter_eq_some_iff.mp hs).2

theorem mergeSort_rank (l : List UInt32) : (l.mergeSort (· ≤ ·)).Pairwise (· ≤ ·) := by
  have htrans : ∀ a b c : UInt32, decide (a ≤ b) = true → decide (b ≤ c) = true →
      decide (a ≤ c) = true := by
    simp only [decide_eq_true_eq]
    exact fun a b c => UInt32.le_trans
  have htotal : ∀ a b : UInt32, (decide (a ≤ b) || decide (b ≤ a)) = true := by
    simp only [Bool.or_eq_true, decide_eq_true_eq]
    exact UInt32.le_total
  exact (List.pairwise_mergeSort htrans htotal l).imp of_decide_eq_true

theorem HostTopology.rows_seedable (t : HostTopology) (h : t.MaskOk) : Seedable t.rows := by
  have hmap : ∀ row ∈ t.rows, row.cpu.toNat < cpuBound
      ∧ row = ⟨row.cpu, t.sibling row.cpu, t.node row.cpu⟩ := by
    intro row hrow
    obtain ⟨cpu, hcpu, rfl⟩ := List.mem_map.mp hrow
    exact ⟨of_decide_eq_true (List.mem_filter.mp hcpu).2, rfl⟩
  constructor
  case rank =>
    have hnodup : (t.span.map UInt32.ofNat).Nodup := by
      refine List.Nodup.map_on (fun a ha b hb hab => ?_) h.1
      have hnat := congrArg UInt32.toNat hab
      rwa [toNat_ofNat_id (h.2 a ha), toNat_ofNat_id (h.2 b hb)] at hnat
    have hne := (List.mergeSort_perm (t.span.map UInt32.ofNat) (· ≤ ·)).nodup_iff.mpr hnodup
    have hlt : ((t.span.map UInt32.ofNat).mergeSort (· ≤ ·)).Pairwise
        fun a b => a.toNat < b.toNat := by
      refine (mergeSort_rank _).imp₂ (fun a b hle hab => ?_) hne
      rw [UInt32.le_iff_toNat_le] at hle
      exact lt_of_le_of_ne hle fun hnat => hab (UInt32.toNat_inj.mp hnat)
    exact List.pairwise_map.mpr (hlt.filter _)
  case cpus => exact fun row hrow => (hmap row hrow).1
  case nodes =>
    intro row hrow
    rw [(hmap row hrow).2]
    exact capNode_lt _
  case sibs =>
    intro row hrow
    have hsib := t.sibling_ne (hmap row hrow).1
    rwa [(hmap row hrow).2]

theorem parseCpuList_rank (s : String) : (parseCpuList s).Pairwise (· < ·) :=
  Text.pairwise_sortDedup _

theorem parseCpuList_lt {s : String} {id : ℕ} (h : id ∈ parseCpuList s) : id < cpuBound := by
  obtain ⟨items, rfl, hcomma⟩ := exists_joinItems s
  exact ((mem_parseCpuList hcomma).mp h).1

theorem readCpuListFile_rank (text : Option String) :
    (readCpuListFile text).Pairwise (· < ·) ∧ ∀ id ∈ readCpuListFile text, id < cpuBound := by
  cases text with
  | none => exact ⟨List.Pairwise.nil, fun _ h => absurd h List.not_mem_nil⟩
  | some s => exact ⟨parseCpuList_rank s, fun _ h => parseCpuList_lt h⟩

theorem cpuBound_lt {id : ℕ} (h : id < cpuBound) : id < 2 ^ 32 := h.trans (by decide)

theorem fallbackRows_seedable (fs : Sysfs) : Seedable (fallbackRows fs) := by
  obtain ⟨hrank, hlt⟩ := readCpuListFile_rank fs.cpuOnline
  constructor
  case rank =>
    refine List.pairwise_map.mpr (hrank.imp_of_mem fun {a b} ha hb hab => ?_)
    rwa [toNat_ofNat_id (cpuBound_lt (hlt a ha)), toNat_ofNat_id (cpuBound_lt (hlt b hb))]
  case cpus =>
    intro row hrow
    obtain ⟨cpu, hcpu, rfl⟩ := List.mem_map.mp hrow
    rw [toNat_ofNat_id (cpuBound_lt (hlt cpu hcpu))]
    exact hlt cpu hcpu
  case nodes =>
    intro row hrow
    obtain ⟨cpu, -, rfl⟩ := List.mem_map.mp hrow
    exact capNode_lt _
  case sibs =>
    intro row hrow
    obtain ⟨cpu, hcpu, rfl⟩ := List.mem_map.mp hrow
    have hword := toNat_ofNat_id (cpuBound_lt (hlt cpu hcpu))
    show ((threadSibling fs cpu).map UInt32.ofNat).getD noSibling ≠ UInt32.ofNat cpu
    rcases hs : threadSibling fs cpu with _ | sib
    · exact noSibling_ne (by rw [hword]; exact hlt cpu hcpu)
    · unfold threadSibling at hs
      have hne : sib ≠ cpu := by simpa using List.find?_some hs
      have hsib : sib < cpuBound := (readCpuListFile_rank _).2 sib (List.mem_of_find?_eq_some hs)
      intro heq
      have hnat := congrArg UInt32.toNat heq
      rw [hword] at hnat
      exact hne ((toNat_ofNat_id (cpuBound_lt hsib)).symm.trans hnat)

/-- The mask of the shared view, where there is one, is in order. -/
def Host.MaskOk (h : Host) : Prop := ∀ t ∈ h.topo, t.MaskOk

theorem topoRows_seedable (h : Host) (hmask : h.MaskOk) : Seedable (topoRows h) := by
  unfold topoRows initTopology
  split
  · exact fallbackRows_seedable h.fs
  · rename_i t ht
    split
    · exact t.rows_seedable (hmask t ht)
    · exact fallbackRows_seedable h.fs

end Rows

section StartLog

theorem joinIds_eq (ids : List ℕ) :
    joinIds ids = joinItems ((ids.mergeSort (· ≤ ·)).map (Nat.toDigits 10)) := rfl

theorem denotes_toDigits {n id : ℕ} (h : n < cpuBound) :
    Denotes (Nat.toDigits 10 n) id ↔ id = n :=
  have hw : Writes (Nat.toDigits 10 n) (.single n) := numberIn_toDigits (cpuBound_lt h)
  hw.denotes_iff

/-- Ids below the bound in rank order read back from their text. -/
theorem parseCpuList_joinIds {ids : List ℕ} (hrank : ids.Pairwise (· < ·))
    (hlt : ∀ id ∈ ids, id < cpuBound) : parseCpuList (joinIds ids) = ids := by
  have hcomma : ∀ item ∈ (ids.mergeSort (· ≤ ·)).map (Nat.toDigits 10), ',' ∉ item := by
    intro item hitem
    obtain ⟨n, hn, rfl⟩ := List.mem_map.mp hitem
    exact (numberIn_toDigits (cpuBound_lt (hlt n (List.mem_mergeSort.mp hn)))).notMem (Or.inr rfl)
  refine (parseCpuList_rank _).eq_of_mem_iff hrank fun id => ?_
  rw [joinIds_eq, mem_parseCpuList hcomma]
  constructor
  · rintro ⟨-, item, hitem, hden⟩
    obtain ⟨n, hn, rfl⟩ := List.mem_map.mp hitem
    rw [List.mem_mergeSort] at hn
    rwa [(denotes_toDigits (hlt n hn)).mp hden]
  · intro hid
    refine ⟨hlt id hid, _, List.mem_map.mpr ⟨id, List.mem_mergeSort.mpr hid, rfl⟩, ?_⟩
    exact (denotes_toDigits (hlt id hid)).mpr rfl

/-- A discovery leaves rows in rank order within the bounds, and the primary list of the start log
reads back as their CPUs. -/
theorem topoRows_text (h : Host) (hmask : h.MaskOk) :
    Seedable (topoRows h)
      ∧ parseCpuList (writePrimaryBitmap (topoRows h)) = (topoRows h).map fun row => row.cpu.toNat := by
  have hrows := topoRows_seedable h hmask
  refine ⟨hrows, parseCpuList_joinIds (List.pairwise_map.mpr hrows.rank) fun id hid => ?_⟩
  obtain ⟨row, hrow, rfl⟩ := List.mem_map.mp hid
  exact hrows.cpus row hrow

/-- A host of these online CPUs with two cores of two threads, on its first and its fourth node. -/
def Host.cores (span : List ℕ) : Host :=
  ⟨some ⟨span, [2, 3, 0, 1], fun cpu => some (if cpu % 2 = 0 then 0 else 3), [[0, 2], [1, 3]]⟩,
    ⟨none, fun _ => none, fun _ => none, none, fun _ => none⟩, none⟩

theorem cores_maskOk : (Host.cores [0, 1, 2, 3]).MaskOk := by
  rintro t ⟨⟩
  exact ⟨by decide, by decide⟩

theorem topoRows_cores : topoRows (Host.cores [0, 1, 2, 3])
    = [⟨0, 2, 0⟩, ⟨1, 3, 3⟩, ⟨2, 0, 0⟩, ⟨3, 1, 3⟩] := by
  unfold topoRows initTopology Host.cores HostTopology.rows
  simp only
  rw [List.mergeSort_of_pairwise (by decide)]
  rfl

theorem topoRows_text_cores :
    topoRows (Host.cores [0, 1, 2, 3]) = [⟨0, 2, 0⟩, ⟨1, 3, 3⟩, ⟨2, 0, 0⟩, ⟨3, 1, 3⟩]
    ∧ Seedable (topoRows (Host.cores [0, 1, 2, 3]))
    ∧ parseCpuList (writePrimaryBitmap (topoRows (Host.cores [0, 1, 2, 3]))) = [0, 1, 2, 3] := by
  obtain ⟨hrows, htext⟩ := topoRows_text (Host.cores [0, 1, 2, 3]) cores_maskOk
  refine ⟨topoRows_cores, hrows, htext.trans ?_⟩
  rw [topoRows_cores]
  rfl

end StartLog

section Routes

/-- What the rows leave in the node column. -/
theorem seedTopoWith_node : ∀ {rows : List TopoRow} (w : World), Seedable rows →
    (∀ row ∈ rows, (seedTopoWith w rows).topoNode row.cpu.toNat = row.node.toNat)
      ∧ ∀ cpu, (∀ row ∈ rows, row.cpu.toNat ≠ cpu) →
        (seedTopoWith w rows).topoNode cpu = w.topoNode cpu
  | [], w, _ => ⟨fun _ h => absurd h List.not_mem_nil, fun _ _ => rfl⟩
  | row :: rows, w, h => by
    have hlt : ¬ row.cpu.toNat ≥ flowMaxCpus := not_le.mpr (h.cpus row List.mem_cons_self)
    obtain ⟨hfirst, hrest⟩ := List.pairwise_cons.mp h.rank
    have htail : Seedable rows := ⟨hrest, fun r hr => h.cpus r (List.mem_cons_of_mem _ hr),
      fun r hr => h.nodes r (List.mem_cons_of_mem _ hr),
      fun r hr => h.sibs r (List.mem_cons_of_mem _ hr)⟩
    have hstep : seedTopoWith w (row :: rows) = seedTopoWith { w with
        topoNode := Function.update w.topoNode row.cpu.toNat row.node.toNat } rows := by
      unfold seedTopoWith
      rw [List.foldl_cons, if_neg hlt]
    obtain ⟨hnode, hkeep⟩ := seedTopoWith_node { w with
      topoNode := Function.update w.topoNode row.cpu.toNat row.node.toNat } htail
    rw [hstep]
    constructor
    · rintro r (_ | ⟨_, hr⟩)
      · rw [hkeep _ fun r hr => (hfirst r hr).ne']
        exact Function.update_self ..
      · exact hnode r hr
    · intro cpu hcpu
      rw [hkeep cpu fun r hr => hcpu r (List.mem_cons_of_mem _ hr)]
      exact Function.update_of_ne (hcpu row List.mem_cons_self).symm _ _

theorem initNode_foldl (topoNode : ℕ → ℕ) (n : ℕ) :
    let hi := (List.range n).foldl (initNode topoNode) none
    (∀ h ∈ hi, h < flowMaxNodes)
      ∧ ∀ cpu < n, topoNode cpu < flowMaxNodes → ∃ h ∈ hi, topoNode cpu ≤ h := by
  induction n with
  | zero => exact ⟨fun _ h => by simp at h, fun _ h => by omega⟩
  | succ n ih =>
    simp only at ih ⊢
    rw [List.range_succ, List.foldl_append, List.foldl_cons, List.foldl_nil]
    generalize (List.range n).foldl (initNode topoNode) none = hi at ih
    obtain ⟨hlt, hge⟩ := ih
    unfold initNode flowTopoNodeOk
    simp only
    by_cases hok : topoNode n < flowMaxNodes
    · rw [decide_eq_true hok]
      simp only [Bool.not_true, Bool.false_eq_true, ↓reduceIte]
      cases hi with
      | none =>
        refine ⟨fun h hh => Option.some.inj hh ▸ hok, fun cpu hcpu hnode => ⟨_, rfl, ?_⟩⟩
        rcases Nat.lt_succ_iff_lt_or_eq.mp hcpu with hcpu | rfl
        · obtain ⟨h, hh, -⟩ := hge cpu hcpu hnode
          cases hh
        · exact le_rfl
      | some h =>
        have hmax : (if topoNode n > h then some (topoNode n) else some h)
            = some (max (topoNode n) h) := by
          split
          · rw [max_eq_left (by omega)]
          · rw [max_eq_right (by omega)]
        dsimp only
        rw [hmax]
        refine ⟨fun h' hh => ?_, fun cpu hcpu hnode => ⟨_, rfl, ?_⟩⟩
        · rw [← Option.some.inj hh]
          exact max_lt hok (hlt h rfl)
        · rcases Nat.lt_succ_iff_lt_or_eq.mp hcpu with hcpu | rfl
          · obtain ⟨h', hh, hle⟩ := hge cpu hcpu hnode
            rw [← Option.some.inj hh] at hle
            exact hle.trans (le_max_right _ _)
          · exact le_max_left _ _
    · rw [decide_eq_false hok]
      simp only [Bool.not_false, ↓reduceIte]
      refine ⟨hlt, fun cpu hcpu hnode => ?_⟩
      rcases Nat.lt_succ_iff_lt_or_eq.mp hcpu with hcpu | rfl
      · exact hge cpu hcpu hnode
      · exact absurd hnode hok

/-- Every valid node of a counted CPU is below the count. -/
theorem lt_initNodes {topoNode : ℕ → ℕ} {n cpu : ℕ} (hcpu : cpu < n)
    (hnode : topoNode cpu < flowMaxNodes) : topoNode cpu < initNodes topoNode n := by
  obtain ⟨hlt, hge⟩ := initNode_foldl topoNode n
  obtain ⟨h, hh, hle⟩ := hge cpu hcpu hnode
  have hbound := hlt h hh
  unfold initNodes
  simp only
  rw [hh]
  simp only
  split_ifs
  · omega
  · omega
  · omega
  · omega

theorem flowInit_view {w w' : World} {v : InitView} {made : List ℕ}
    (h : flowInit w v = .ok (w', made)) : w'.topoNode = w.topoNode
      ∧ w'.nrCpuIds = v.nrCpuIds ∧ w'.nrNodeIds = initNodes w.topoNode v.nrCpuIds := by
  unfold flowInit at h
  simp only at h
  split_ifs at h
  rcases hq : (initQueues v.nrCpuIds (initNodes w.topoNode v.nrCpuIds)).mapM (initCreate v)
    with e | ds
  · rw [hq] at h
    cases h
  · rw [hq] at h
    rw [← (Prod.mk.inj (Except.ok.inj h)).1]
    exact ⟨rfl, rfl, rfl⟩

/-- After the seed and the attach, each CPU with a row drains the queue of the node its row names,
and the queue exists. -/
theorem discovery_routing (h : Host) (hmask : h.MaskOk) (w₀ : World) (v : InitView) (w : World)
    (made : List ℕ) (hinit : flowInit (seedTopoWith w₀ (topoRows h)) v = .ok (w, made)) :
    ∀ row ∈ topoRows h, row.cpu.toNat < v.nrCpuIds →
      tierQueues w row.cpu.toNat
          = [flowLocalDsq row.cpu.toNat, flowNodeDsq row.node.toNat, flowMachineDsq]
        ∧ flowNodeDsq row.node.toNat ∈ made := by
  intro row hrow hcpu
  have hrows := topoRows_seedable h hmask
  obtain ⟨htopo, hcpus, hnodes⟩ := flowInit_view hinit
  have hcell : w.topoNode row.cpu.toNat = row.node.toNat := by
    rw [htopo]
    exact (seedTopoWith_node w₀ hrows).1 row hrow
  have hmax : row.cpu.toNat < flowMaxCpus := hrows.cpus row hrow
  have hnode : row.node.toNat < flowMaxNodes := hrows.nodes row hrow
  have hcount : row.node.toNat < w.nrNodeIds := by
    rw [hnodes, ← hcell, ← htopo]
    exact lt_initNodes hcpu (hcell ▸ hnode)
  have hown : flowDispatchNode w row.cpu.toNat = row.node.toNat := by
    have hcol : flowCpuNode w row.cpu.toNat = row.node.toNat := by
      unfold flowCpuNode
      rw [if_neg (by omega), hcell, if_neg (by omega)]
    unfold flowDispatchNode
    simp only
    rw [hcol, if_neg (by omega)]
  refine ⟨by rw [tierQueues, hown], ?_⟩
  rcases (flowInit_attached hinit).1.nodeDsq hcount with hin | ⟨c, -, heq⟩
  · exact hin
  · exact absurd heq.symm (scxLocalOn_ne ((flowNodeDsq_lt hnode).trans (by decide))).symm

/-- The host of two cores after the seed and the attach. -/
def World.cores : World :=
  { World.boot 4 4 (seedTopoWith (World.boot 0 0 fun _ => 0)
      [⟨0, 2, 0⟩, ⟨1, 3, 3⟩, ⟨2, 0, 0⟩, ⟨3, 1, 3⟩]).topoNode with
    cpuState := fun cpu => if cpu < 4 then ⟨0, UInt32.ofNat cpu, 0⟩ else ⟨0, 0, 0⟩ }

/-- The attach creates the queues of four nodes, of which the CPUs drain the first and the last. -/
theorem discovery_routing_cores :
    topoRows (Host.cores [0, 1, 2, 3]) = [⟨0, 2, 0⟩, ⟨1, 3, 3⟩, ⟨2, 0, 0⟩, ⟨3, 1, 3⟩]
    ∧ ∀ row ∈ topoRows (Host.cores [0, 1, 2, 3]), row.cpu.toNat < 4 →
      tierQueues World.cores row.cpu.toNat
          = [flowLocalDsq row.cpu.toNat, flowNodeDsq row.node.toNat, flowMachineDsq]
        ∧ flowNodeDsq row.node.toNat ∈ initQueues 4 4 :=
  ⟨topoRows_cores, discovery_routing (Host.cores [0, 1, 2, 3]) cores_maskOk
    (World.boot 0 0 fun _ => 0) ⟨4, fun _ => 0⟩ World.cores (initQueues 4 4)
    (by rw [topoRows_cores]; rfl)⟩

end Routes

section Smt

/-- The threads sysfs lists with a CPU. -/
def coreThreads (fs : Sysfs) (cpu : ℕ) : List ℕ := readCpuListFile (fs.threadSiblingsList cpu)

/-- The first thread that is not the CPU comes before it where any does. -/
theorem threadSibling_lt (fs : Sysfs) (cpu : ℕ) :
    (∃ sib ∈ threadSibling fs cpu, sib < cpu) ↔ ∃ id ∈ coreThreads fs cpu, id < cpu := by
  unfold threadSibling coreThreads
  obtain ⟨hrank, -⟩ := readCpuListFile_rank (fs.threadSiblingsList cpu)
  generalize readCpuListFile (fs.threadSiblingsList cpu) = l at hrank ⊢
  cases l with
  | nil => simp
  | cons a l =>
    by_cases ha : a = cpu
    · subst ha
      have hgt := (List.pairwise_cons.mp hrank).1
      rw [List.find?_cons_of_neg (by simp)]
      constructor
      · rintro ⟨sib, hsib, hlt⟩
        exact absurd hlt (hgt sib (List.mem_of_find?_eq_some hsib)).not_gt
      · rintro ⟨id, _ | ⟨_, hid⟩, hlt⟩
        · exact absurd hlt (lt_irrefl _)
        · exact absurd hlt (hgt id hid).not_gt
    · rw [List.find?_cons_of_pos (by simpa using ha)]
      constructor
      · rintro ⟨sib, hsib, hlt⟩
        obtain rfl := Option.some.inj hsib
        exact ⟨_, List.mem_cons_self, hlt⟩
      · rintro ⟨id, _ | ⟨_, hid⟩, hlt⟩
        · exact ⟨_, rfl, hlt⟩
        · exact ⟨_, rfl, ((List.pairwise_cons.mp hrank).1 id hid).trans hlt⟩

/-- The row of the fallback for a CPU. -/
def fallbackRow (fs : Sysfs) (cpu : ℕ) : TopoRow :=
  ⟨UInt32.ofNat cpu, ((threadSibling fs cpu).map UInt32.ofNat).getD noSibling,
    capNode (((cpuNode fs cpu).map UInt32.ofNat).getD 0)⟩

theorem mem_fallbackRows {fs : Sysfs} {row : TopoRow} : row ∈ fallbackRows fs
    ↔ row.cpu.toNat ∈ readCpuListFile fs.cpuOnline ∧ row = fallbackRow fs row.cpu.toNat := by
  have hword {cpu : ℕ} (h : cpu ∈ readCpuListFile fs.cpuOnline) :
      (fallbackRow fs cpu).cpu.toNat = cpu :=
    toNat_ofNat_id (cpuBound_lt ((readCpuListFile_rank fs.cpuOnline).2 cpu h))
  constructor
  · intro h
    obtain ⟨cpu, hcpu, rfl⟩ := List.mem_map.mp h
    refine ⟨?_, ?_⟩
    · exact (hword hcpu).symm ▸ hcpu
    · exact congrArg (fallbackRow fs) (hword hcpu).symm
  · rintro ⟨hcpu, hrow⟩
    rw [hrow]
    exact List.mem_map.mpr ⟨_, hcpu, rfl⟩

/-- A CPU of the fallback is flagged exactly where its core has a thread before it. -/
theorem fallback_smt {fs : Sysfs} {row : TopoRow} (hrow : row ∈ fallbackRows fs) :
    isSmtThread row.cpu row.sib = true ↔ ∃ id ∈ coreThreads fs row.cpu.toNat, id < row.cpu.toNat := by
  obtain ⟨hcpu, hrow⟩ := mem_fallbackRows.mp hrow
  have hword : (UInt32.ofNat row.cpu.toNat).toNat = row.cpu.toNat :=
    toNat_ofNat_id (cpuBound_lt ((readCpuListFile_rank fs.cpuOnline).2 _ hcpu))
  generalize row.cpu.toNat = cpu at *
  subst hrow
  rw [← threadSibling_lt]
  unfold isSmtThread
  rw [decide_eq_true_eq]
  show ((threadSibling fs cpu).map UInt32.ofNat).getD noSibling ≠ noSibling
    ∧ ((threadSibling fs cpu).map UInt32.ofNat).getD noSibling < UInt32.ofNat cpu ↔ _
  rcases hs : threadSibling fs cpu with _ | sib
  · simp
  · have hsib : sib < cpuBound := by
      unfold threadSibling at hs
      exact (readCpuListFile_rank _).2 sib (List.mem_of_find?_eq_some hs)
    have hwords : (UInt32.ofNat sib).toNat = sib := toNat_ofNat_id (cpuBound_lt hsib)
    have hno : UInt32.ofNat sib ≠ noSibling := (noSibling_ne (by rwa [hwords])).symm
    show UInt32.ofNat sib ≠ noSibling ∧ UInt32.ofNat sib < UInt32.ofNat cpu ↔ _
    rw [UInt32.lt_iff_toNat_lt, hwords, hword]
    exact ⟨fun h => ⟨sib, rfl, h.2⟩, fun ⟨_, hx, h⟩ => ⟨hno, Option.some.inj hx ▸ h⟩⟩

/-- The thread lists of the online CPUs split them into cores. -/
structure CoresOk (fs : Sysfs) : Prop where
  own : ∀ cpu ∈ readCpuListFile fs.cpuOnline, cpu ∈ coreThreads fs cpu
  online : ∀ cpu ∈ readCpuListFile fs.cpuOnline, ∀ id ∈ coreThreads fs cpu,
    id ∈ readCpuListFile fs.cpuOnline
  same : ∀ cpu ∈ readCpuListFile fs.cpuOnline, ∀ id ∈ coreThreads fs cpu,
    coreThreads fs id = coreThreads fs cpu

/-- Of the threads of each core the fallback leaves exactly one unflagged, however many there are. -/
theorem fallback_smt_one (fs : Sysfs) (h : CoresOk fs) :
    ∀ row ∈ fallbackRows fs, ∃! first, first ∈ fallbackRows fs
      ∧ first.cpu.toNat ∈ coreThreads fs row.cpu.toNat
      ∧ isSmtThread first.cpu first.sib = false := by
  intro row hrow
  obtain ⟨hcpu, -⟩ := mem_fallbackRows.mp hrow
  generalize row.cpu.toNat = cpu at hcpu ⊢
  obtain ⟨hrank, -⟩ := readCpuListFile_rank (fs.threadSiblingsList cpu)
  have hsplit := List.exists_cons_of_ne_nil (List.ne_nil_of_mem (h.own cpu hcpu))
  obtain ⟨first, rest, hthreads⟩ := hsplit
  have hleast : ∀ id ∈ coreThreads fs cpu, first ≤ id := by
    rw [coreThreads] at hthreads
    rw [hthreads] at hrank
    rw [coreThreads, hthreads]
    rintro id (_ | ⟨_, hid⟩)
    · exact le_rfl
    · exact ((List.pairwise_cons.mp hrank).1 id hid).le
  have hmem : first ∈ coreThreads fs cpu := by
    rw [hthreads]
    exact List.mem_cons_self
  have honline : first ∈ readCpuListFile fs.cpuOnline := h.online cpu hcpu first hmem
  have hword : (fallbackRow fs first).cpu.toNat = first :=
    toNat_ofNat_id (cpuBound_lt ((readCpuListFile_rank fs.cpuOnline).2 first honline))
  have hrow' : fallbackRow fs first ∈ fallbackRows fs :=
    mem_fallbackRows.mpr ⟨by rwa [hword], by rw [hword]⟩
  refine ⟨fallbackRow fs first, ⟨hrow', by rwa [hword], ?_⟩, ?_⟩
  · rw [← Bool.not_eq_true, fallback_smt hrow', hword, h.same cpu hcpu first hmem]
    rintro ⟨id, hid, hlt⟩
    exact absurd (hleast id hid) hlt.not_ge
  · rintro other ⟨hother, hin, hflag⟩
    rw [← Bool.not_eq_true, fallback_smt hother, h.same cpu hcpu _ hin] at hflag
    have heq : other.cpu.toNat = first :=
      le_antisymm (not_lt.mp fun hlt => hflag ⟨first, hmem, hlt⟩) (hleast _ hin)
    rw [(mem_fallbackRows.mp hother).2, heq]

/-- Two threads of one core. -/
def Sysfs.pair : Sysfs :=
  ⟨some (joinIds [0, 1]), fun _ => some (joinIds [0, 1]), fun _ => none, none, fun _ => none⟩

theorem fallback_smt_one_pair : CoresOk Sysfs.pair
    ∧ ∀ row ∈ fallbackRows Sysfs.pair, ∃! first, first ∈ fallbackRows Sysfs.pair
      ∧ first.cpu.toNat ∈ coreThreads Sysfs.pair row.cpu.toNat
      ∧ isSmtThread first.cpu first.sib = false := by
  have hread : parseCpuList (joinIds [0, 1]) = [0, 1] :=
    parseCpuList_joinIds (by decide) (by decide)
  have honline : readCpuListFile Sysfs.pair.cpuOnline = [0, 1] := hread
  have hthreads (cpu : ℕ) : coreThreads Sysfs.pair cpu = [0, 1] := hread
  have hcores : CoresOk Sysfs.pair := by
    refine ⟨fun cpu hcpu => ?_, fun cpu _ id hid => ?_, fun cpu _ id _ => ?_⟩
    · rwa [hthreads, ← honline]
    · rwa [honline, ← hthreads cpu]
    · rw [hthreads, hthreads]
  exact ⟨hcores, fallback_smt_one Sysfs.pair hcores⟩

end Smt

end ScxFlow
