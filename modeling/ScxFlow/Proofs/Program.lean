import ScxFlow.Proofs.Custody
import ScxFlow.Proofs.Discovery

/-!
# The daemon over runs

Across any interleaving of the loop, the page's thread and the scheduler's turns the daemon's lists
stay those of the rows it seeded last, and so does the node column (`run_view`); the page shows the
snapshots pushed for it in order and no more than a channel behind (`run_frames`); and a gap of a
clock is checked exactly once, also where readings of the boot clock fail in between (`run_resumed`).
-/

namespace ScxFlow

variable {w : World} {k : Kernel} {p : TaskRef}

section NodeColumn

theorem perform_topoNode (w : World) (k : Kernel) (p : TaskRef) (e : Effect) :
    (w.perform k p e).topoNode = w.topoNode := by
  cases e <;> simp only [World.perform]
  case count c n => rw [flowCount_eq]
  case cacheFill pid id => rw [cacheFill_eq]
  case cacheInvalidate pid => rw [flowCgrpCacheInvalidate_eq]
  case clearRunningIfOwner cpu pid => rw [flowClearRunningIfOwner_eq]
  case clearRunning cpu => rw [flowClearRunning_eq]
  case minAdvance cpu v => rw [flowMinAdvance_eq]
  all_goals rfl

theorem commit_topoNode (w : World) (k : Kernel) (p : TaskRef) (o : OpOut) :
    (w.commit k p o).topoNode = w.topoNode :=
  List.foldl_observe World.topoNode
    { w with taskCtx := Function.update w.taskCtx p o.ctx } fun w e _ => perform_topoNode w k p e

theorem step_topoNode (w : World) (c : Call) : (w.step c).topoNode = w.topoNode := by
  obtain ⟨k, op⟩ := c
  have hcgroup (hop : op.isCgroup = true) : (w.step ⟨k, op⟩).topoNode = w.topoNode := by
    obtain ⟨stor, cache, heq⟩ := step_cgroup w k hop
    rw [heq]
  cases op with
  | enqueue p enqFlags => exact commit_topoNode w k p _
  | running p => exact commit_topoNode w k p _
  | stopping p runnable => exact commit_topoNode w k p _
  | enable p => exact commit_topoNode w k p _
  | disable p => exact commit_topoNode w k p _
  | exitTask p => exact commit_topoNode w k p _
  | cpuRelease cpu =>
    show (flowCpuRelease w k cpu).topoNode = w.topoNode
    unfold flowCpuRelease
    split
    · rw [flowCount_eq]
    · rw [flowClearRunning_eq]
  | dispatch cpu => exact (flowDispatch_rows w k cpu).1
  | setWeight p weight =>
    show (flowSetWeight w p weight).topoNode = w.topoNode
    rw [flowSetWeight_eq]
  | cgroupInit cgrp => exact hcgroup rfl
  | cgroupExit cgrp => exact hcgroup rfl
  | cgroupMove p dst => exact hcgroup rfl
  | cgroupSetWeight cgrp weight => exact hcgroup rfl

/-- The turn is not a seed of the loader. -/
def Turn.isScheduler : Turn → Bool
  | .seed _ => false
  | _ => true

theorem turn_topoNode (w : World) {t : Turn} (ht : t.isScheduler = true) :
    (core.step w t).topoNode = w.topoNode := by
  cases t with
  | call c => exact step_topoNode w c
  | select k cap p prevCpu =>
    refine List.foldl_observe World.topoNode w fun w e _ => ?_
    split
    · rfl
    · rw [flowCount_eq]
  | seed rows => cases ht
  | pick cpu => rfl
  | dequeue p dsq => rfl

end NodeColumn

section Lists

/-- The turns are the scheduler's own, and the hosts' masks are in order. -/
def Event.Ok : Event → Prop
  | .turn t => t.isScheduler = true
  | .tick t => t.host.MaskOk
  | .keep => True

/-- The card of a row. -/
def cardOf (w : World) (row : TopoRow) : PerCpuMetrics :=
  ⟨row.cpu, isSmtThread row.cpu row.sib, (w.cpuState row.cpu.toNat).runningPid, flowQuantumNs⟩

/-- What the daemon and the node column hold is what the rows it keeps say. -/
structure Viewed (s : Whole) : Prop where
  rows : Seedable s.daemon.sched.seeded
  online : s.daemon.sched.onlineCpus = s.daemon.sched.seeded.map TopoRow.cpu
  smt : s.daemon.smt = smtFlags s.daemon.sched.seeded
  text : ∃ topo, s.daemon.topology = describeTopology topo s.daemon.sched.seeded
  nodes : ∀ row ∈ s.daemon.sched.seeded, s.world.topoNode row.cpu.toNat = row.node.toNat

/-- The hosts the resumes of a log discovered. -/
def discovered (log : List Ticked) : List Host :=
  (log.filter fun r => r.resumed).map fun r => r.read.host

theorem discovered_snoc (log : List Ticked) (r : Ticked) : discovered (log ++ [r])
    = discovered log ++ if r.resumed then [r.read.host] else [] := by
  unfold discovered
  rw [List.filter_append, List.map_append]
  rcases hr : r.resumed with _ | _
  · simp [hr]
  · simp [hr]

theorem check_viewed {s : Whole} {t : Tick} (ht : t.host.MaskOk) (h : Viewed s) :
    Viewed ⟨(s.daemon.check s.world t).2, (s.daemon.check s.world t).1, s.web⟩ := by
  have hkept {tick : ℕ} {boot : Option ℕ} :
      Viewed ⟨s.world, { s.daemon with lastTick := tick, lastBoot := boot }, s.web⟩ :=
    ⟨h.rows, h.online, h.smt, h.text, h.nodes⟩
  have hrows := topoRows_seedable t.host ht
  unfold Daemon.check reseedIfChanged
  simp only
  split
  · split
    · exact hkept
    · rename_i rows hchanged
      split at hchanged
      · cases hchanged
      · obtain rfl := Option.some.inj hchanged
        exact ⟨hrows, rfl, rfl, ⟨_, rfl⟩, (seedTopoWith_node s.world hrows).1⟩
  · exact hkept

theorem event_viewed (s : Whole) (e : Event) (he : e.Ok) (h : Viewed s) :
    Viewed (program.step s e) := by
  cases e with
  | turn t =>
    refine ⟨h.rows, h.online, h.smt, h.text, fun row hrow => ?_⟩
    show (core.step s.world t).topoNode _ = _
    rw [turn_topoNode s.world he]
    exact h.nodes row hrow
  | tick t =>
    obtain ⟨hrows, honline, hsmt, htext, hnodes⟩ := check_viewed he h
    exact ⟨hrows, honline, hsmt, htext, hnodes⟩
  | keep => exact ⟨h.rows, h.online, h.smt, h.text, h.nodes⟩

theorem check_seeded (s : Whole) (t : Tick) : (s.daemon.check s.world t).1.sched.seeded
    = if s.daemon.resumed t then topoRows t.host else s.daemon.sched.seeded := by
  unfold Daemon.check reseedIfChanged
  simp only
  split
  · by_cases heq : s.daemon.sched.seeded = topoRows t.host
    · rw [if_pos heq]
      exact heq
    · rw [if_neg heq]
  · rfl

/-- The rows held are the last discovered, also behind the next event. -/
theorem event_seeded (h : Host) (s : Whole) (e : Event) (log : List Ticked)
    (hs : s.daemon.sched.seeded = topoRows ((discovered log).getLastD h)) :
    (program.step s e).daemon.sched.seeded
      = topoRows ((discovered (log ++ program.out s e)).getLastD h) := by
  cases e with
  | turn t =>
    show s.daemon.sched.seeded = topoRows ((discovered (log ++ [])).getLastD h)
    rw [List.append_nil, hs]
  | tick t =>
    refine (check_seeded s t).trans ?_
    unfold program
    simp only [discovered_snoc]
    rcases hr : s.daemon.resumed t with _ | _
    · simpa using hs
    · simp
  | keep =>
    show s.daemon.sched.seeded = topoRows ((discovered (log ++ [])).getLastD h)
    rw [List.append_nil, hs]

/-- The daemon as `init` leaves it, with the page's side. -/
def Whole.start (w : World) (h : Host) (now : ℕ) (boot : Option ℕ) (web : Option Web) : Whole :=
  ⟨(Daemon.init w h now boot).2, (Daemon.init w h now boot).1, web⟩

theorem start_viewed (w : World) (h : Host) (hmask : h.MaskOk) (now : ℕ) (boot : Option ℕ)
    (web : Option Web) : Viewed (Whole.start w h now boot web) :=
  have hrows := topoRows_seedable h hmask
  ⟨hrows, rfl, rfl, ⟨_, rfl⟩, (seedTopoWith_node w hrows).1⟩

/-- Lists in step give each row its card. -/
theorem Viewed.cards {s : Whole} (h : Viewed s) (elapsed : ℕ) (sinceEpoch : Option ℕ) :
    (getWebMetrics s.world s.daemon elapsed sinceEpoch).perCpu
      = s.daemon.sched.seeded.map (cardOf s.world) := by
  unfold getWebMetrics
  simp only
  rw [h.online, h.smt]
  unfold smtFlags
  have hrows := h.rows
  refine List.ext_getElem (by simp) fun i hi hi' => ?_
  rw [List.length_map] at hi'
  have hcpu := hrows.cpus _ (List.getElem_mem hi')
  simp only [List.getElem_map, List.getElem_zipIdx, Nat.zero_add, List.getElem?_map,
    List.getElem?_eq_getElem hi', Option.map_some, Option.getD_some, cardOf, readCpu]
  rw [if_neg (by simpa using hcpu)]

/-- After every run the rows the daemon keeps are the last it discovered, its lists and the node
column say what those rows say, and a snapshot has one card for each, in rank order. -/
theorem run_view (w : World) (h : Host) (hmask : h.MaskOk) (now : ℕ) (boot : Option ℕ)
    (web : Option Web) (es : List Event) (hes : ∀ e ∈ es, e.Ok) (elapsed : ℕ)
    (sinceEpoch : Option ℕ) :
    let s := program.exec (Whole.start w h now boot web) es
    Viewed s
      ∧ s.daemon.sched.seeded
        = topoRows ((discovered (program.log (Whole.start w h now boot web) es)).getLastD h)
      ∧ (getWebMetrics s.world s.daemon elapsed sinceEpoch).perCpu
        = s.daemon.sched.seeded.map (cardOf s.world) := by
  have hview : Viewed (program.exec (Whole.start w h now boot web) es) :=
    program.exec_keeps es (fun s e he => event_viewed s e (hes e he))
      (start_viewed w h hmask now boot web)
  refine ⟨hview, ?_, hview.cards elapsed sinceEpoch⟩
  have hinv := program.invariant (P := fun _ _ => True)
    (I := fun s log => s.daemon.sched.seeded = topoRows ((discovered log).getLastD h))
    (fun s e log _ => event_seeded h s e log) es
    (program.along_of_forall (fun _ _ => trivial) (Whole.start w h now boot web) es) (h := []) rfl
  rwa [List.nil_append] at hinv

/-- A poll after a stall of six seconds, behind which the second thread of each core is gone. -/
def Tick.late : Tick :=
  ⟨true, 6000000000, none, 6000000000, ⟨-1, 0, 0⟩,
    { Host.cores [0, 1] with
      topo := some ⟨[0, 1], [-1, -1], fun cpu => some (if cpu % 2 = 0 then 0 else 3), [[0], [1]]⟩ }⟩

theorem topoRows_late : topoRows Tick.late.host = [⟨0, noSibling, 0⟩, ⟨1, noSibling, 3⟩] := by
  unfold topoRows initTopology Tick.late Host.cores HostTopology.rows
  simp only
  rw [List.mergeSort_of_pairwise (by decide)]
  rfl

theorem late_maskOk : Tick.late.host.MaskOk := by
  rintro t ⟨⟩
  exact ⟨by decide, by decide⟩

/-- The daemon keeps two of its four rows, and a snapshot has the cards of these. -/
theorem run_view_late :
    let s := program.exec (Whole.start World.cores (Host.cores [0, 1, 2, 3]) 0 none (some .start))
      [.tick .late, .turn (.pick 1), .keep]
    Viewed s
      ∧ s.daemon.sched.seeded = [⟨0, noSibling, 0⟩, ⟨1, noSibling, 3⟩]
      ∧ (getWebMetrics s.world s.daemon 1 none).perCpu
        = [cardOf s.world ⟨0, noSibling, 0⟩, cardOf s.world ⟨1, noSibling, 3⟩] := by
  intro s
  have hes : ∀ e ∈ [Event.tick .late, .turn (.pick 1), .keep], e.Ok := by
    simpa [Event.Ok, Turn.isScheduler] using late_maskOk
  obtain ⟨hview, hrows, hcards⟩ := run_view World.cores (Host.cores [0, 1, 2, 3]) cores_maskOk 0 none
    (some .start) [.tick .late, .turn (.pick 1), .keep] hes 1 none
  have hlate : s.daemon.sched.seeded = [⟨0, noSibling, 0⟩, ⟨1, noSibling, 3⟩] :=
    hrows.trans topoRows_late
  exact ⟨hview, hlate, hcards.trans (congrArg (List.map (cardOf s.world)) hlate)⟩

end Lists

section Page

/-- The snapshots of a log that were pushed. -/
def pushedFrames (log : List Frame) : List WebMetrics :=
  log.filterMap fun f => match f with
    | .pushed snap => some snap
    | .shown _ => none

/-- The snapshots of a log that came to be shown. -/
def shownFrames (log : List Frame) : List WebMetrics :=
  log.filterMap fun f => match f with
    | .pushed _ => none
    | .shown snap => some snap

/-- Of the snapshots pushed the page showed the first ones and the channel holds the others, and
the page shows the last it came to. -/
def Shows (s : Whole) (log : List Frame) : Prop :=
  ∃ web, s.web = some web ∧ web.channel.Holds (pushedFrames log) (shownFrames log)
    ∧ web.shown = (shownFrames log).getLastD .none

/-- A tick of a page with room pushes one snapshot, and one of a full page pushes none. -/
theorem tick_page (s : Whole) (t : Tick) {web : Web} (hweb : s.web = some web) :
    (page.step s (.tick t)).web = some { web with
        channel := web.channel.trySend (getWebMetrics s.world s.daemon t.elapsed t.sinceEpoch) }
      ∧ page.out s (.tick t) = if web.channel.isFull then []
        else [.pushed (getWebMetrics s.world s.daemon t.elapsed t.sinceEpoch)] := by
  unfold page Whole.step Daemon.poll
  simp only [hweb]
  by_cases hfull : web.channel.isFull = true
  · rw [if_pos hfull, if_pos hfull, Channel.trySend_full hfull]
    exact ⟨rfl, rfl⟩
  · rw [if_neg hfull, if_neg hfull]
    exact ⟨rfl, rfl⟩

theorem event_shows (s : Whole) (e : Event) (log : List Frame) (h : Shows s log) :
    Shows (page.step s e) (log ++ page.out s e) := by
  obtain ⟨web, hweb, hholds, hshown⟩ := h
  unfold Shows pushedFrames shownFrames at *
  rw [List.filterMap_append, List.filterMap_append]
  cases e with
  | turn t =>
    exact ⟨web, hweb, by simpa [page] using hholds, by simpa [page] using hshown⟩
  | tick t =>
    obtain ⟨hstep, hout⟩ := tick_page s t hweb
    rw [hout]
    refine ⟨_, hstep, ?_⟩
    rcases hfull : web.channel.isFull with _ | _
    · exact ⟨by simpa using hholds.trySend hfull _, by simpa using hshown⟩
    · rw [Channel.trySend_full hfull]
      exact ⟨by simpa using hholds, by simpa using hshown⟩
  | keep =>
    have hstep : (page.step s .keep).web = some web.keep := by
      show s.web.map Web.keep = _
      rw [hweb]
      rfl
    have hout : page.out s .keep
        = if web.channel.held = [] then [] else [.shown web.keep.shown] := by
      unfold page
      simp only [hweb]
    refine ⟨web.keep, hstep, ?_⟩
    rw [hout]
    unfold Web.keep
    rcases hrecv : web.channel.recv with _ | ⟨frame, channel⟩
    · rw [if_pos (Channel.recv_eq_none hrecv)]
      exact ⟨by simpa using hholds, by simpa using hshown⟩
    · have hheld := Channel.recv_eq_some hrecv
      rw [if_neg (by rw [hheld]; exact List.cons_ne_nil _ _)]
      exact ⟨by simpa using hholds.recv hrecv, by simp⟩

/-- In every run the snapshots shown are those pushed, in order and each once, but for the last ones
that the channel still holds; the server answers with the last one shown; and the next tick pushes
the snapshot it reads where the channel has room, and leaves a full channel as it is. -/
theorem run_frames (w : World) (h : Host) (now : ℕ) (boot : Option ℕ) (es : List Event) :
    let s := Whole.start w h now boot (some .start)
    let log := page.log s es
    let s' := page.exec s es
    ∃ web, s'.web = some web
      ∧ shownFrames log ++ web.channel.held = pushedFrames log
      ∧ (pushedFrames log).length ≤ (shownFrames log).length + webBound
      ∧ (∀ url snap, web.serve url = .json snap → snap = (shownFrames log).getLastD .none)
      ∧ ∀ t, let frame := getWebMetrics s'.world s'.daemon t.elapsed t.sinceEpoch
        (web.channel.isFull = true →
          (page.step s' (.tick t)).web = some web ∧ page.out s' (.tick t) = [])
        ∧ (web.channel.isFull = false → page.out s' (.tick t) = [.pushed frame]
          ∧ ∃ web', (page.step s' (.tick t)).web = some web' ∧ web'.shown = web.shown
            ∧ web'.channel.held = web.channel.held ++ [frame]) := by
  intro s log s'
  have hinv := page.invariant (P := fun _ _ => True) (fun s e log _ => event_shows s e log) es
    (page.along_of_forall (fun _ _ => trivial) s es) (h := []) ⟨.start, rfl, rfl, rfl⟩
  rw [List.nil_append] at hinv
  obtain ⟨web, hweb, hholds, hshown⟩ := hinv
  refine ⟨web, hweb, hholds, hholds.behind, fun url snap hserve => ?_, fun t => ?_⟩
  · rw [← hshown]
    unfold Web.serve at hserve
    split_ifs at hserve
    exact (Response.json.inj hserve).symm
  · obtain ⟨hstep, hout⟩ := tick_page s' t hweb
    refine ⟨fun hfull => ⟨?_, by rw [hout, if_pos hfull]⟩, fun hroom => ?_⟩
    · rw [hstep, Channel.trySend_full hfull]
    · exact ⟨hout.trans (if_neg (Bool.eq_false_iff.mp hroom)), _, hstep, rfl,
        Channel.held_trySend hroom _⟩

end Page

section Resumes

/-- Each reading with the one before it. -/
def adjacent (l : List ℕ) : List (ℕ × ℕ) := l.zip l.tail

theorem adjacent_snoc (a : ℕ) : ∀ l : List ℕ,
    adjacent (l ++ [a]) = adjacent l ++ l.getLast?.toList.map fun b => (b, a)
  | [] => rfl
  | [b] => rfl
  | b :: c :: l => by
    have ih := adjacent_snoc a (c :: l)
    unfold adjacent at ih ⊢
    simp only [List.cons_append, List.tail_cons, List.zip_cons_cons] at ih ⊢
    rw [ih, List.getLast?_cons_cons]

def tickGap (l n : ℕ) : Bool := decide (n - l > resumeGap)

/-- The readings of the loop's clock, and those of the boot clock that succeeded. -/
def ticksRead (s : Whole) (log : List Ticked) : List ℕ :=
  s.daemon.lastTick :: log.map fun r => r.read.now

def bootsRead (s : Whole) (log : List Ticked) : List ℕ :=
  s.daemon.lastBoot.toList ++ log.filterMap fun r => r.read.boot

/-- The readings further from the one before than the gap allows. -/
def behind (gap : ℕ → ℕ → Bool) (l : List ℕ) : List ℕ :=
  ((adjacent l).filter fun p => gap p.1 p.2).map Prod.snd

theorem behind_snoc (gap : ℕ → ℕ → Bool) (l : List ℕ) (a : ℕ) :
    behind gap (l ++ [a]) = behind gap l ++ if l.getLast?.any (gap · a) then [a] else [] := by
  unfold behind
  rw [adjacent_snoc, List.filter_append, List.map_append]
  rcases l.getLast? with _ | b
  · rfl
  · rcases hg : gap b a with _ | _
    · simp [hg]
    · simp [hg]

/-- The clocks the daemon holds and the stalls it logged. -/
structure Clocked (s₀ s : Whole) (log : List Ticked) : Prop where
  tick : (ticksRead s₀ log).getLast? = some s.daemon.lastTick
  boot : (bootsRead s₀ log).getLast? = s.daemon.lastBoot
  ticks : (log.filter fun r => r.tickStalled).map (fun r => r.read.now)
    = behind tickGap (ticksRead s₀ log)
  boots : (log.filter fun r => r.bootStalled).filterMap (fun r => r.read.boot)
    = behind bootGapExceeded (bootsRead s₀ log)
  resumed : ∀ r ∈ log, r.resumed = (r.tickStalled || r.bootStalled)

theorem clocked_start (s : Whole) : Clocked s s [] := by
  refine ⟨rfl, ?_, rfl, ?_, fun r hr => absurd hr List.not_mem_nil⟩
  · unfold bootsRead
    rcases s.daemon.lastBoot with _ | l
    · rfl
    · rfl
  · unfold bootsRead
    rcases s.daemon.lastBoot with _ | l
    · rfl
    · rfl

theorem check_clocks (s : Whole) (t : Tick) :
    (s.daemon.check s.world t).1.lastTick = t.now
      ∧ (s.daemon.check s.world t).1.lastBoot
        = if t.boot.isSome then t.boot else s.daemon.lastBoot := by
  unfold Daemon.check
  simp only
  split
  · split
    · exact ⟨rfl, rfl⟩
    · exact ⟨rfl, rfl⟩
  · exact ⟨rfl, rfl⟩

theorem ticksRead_snoc (s : Whole) (log : List Ticked) (r : Ticked) :
    ticksRead s (log ++ [r]) = ticksRead s log ++ [r.read.now] := by
  simp [ticksRead]

theorem bootsRead_snoc (s : Whole) (log : List Ticked) (r : Ticked) :
    bootsRead s (log ++ [r]) = bootsRead s log ++ r.read.boot.toList := by
  unfold bootsRead
  rw [List.filterMap_append, List.append_assoc]
  rcases hb : r.read.boot with _ | n
  · simp [hb]
  · simp [hb]

theorem event_clocked (s₀ s : Whole) (e : Event) (log : List Ticked) (h : Clocked s₀ s log) :
    Clocked s₀ (program.step s e) (log ++ program.out s e) := by
  have hquiet (hd : (program.step s e).daemon = s.daemon) (ho : program.out s e = []) :
      Clocked s₀ (program.step s e) (log ++ program.out s e) := by
    rw [ho, List.append_nil]
    exact ⟨hd ▸ h.tick, hd ▸ h.boot, h.ticks, h.boots, h.resumed⟩
  cases e with
  | turn t => exact hquiet rfl rfl
  | keep => exact hquiet rfl rfl
  | tick t =>
    obtain ⟨htick, hboot⟩ := check_clocks s t
    unfold program Whole.step
    simp only
    constructor
    case tick =>
      rw [ticksRead_snoc, List.getLast?_concat]
      exact congrArg some htick.symm
    case boot =>
      rw [bootsRead_snoc, hboot, ← h.boot]
      rcases t.boot with _ | n
      · simp
      · simp
    case ticks =>
      rw [ticksRead_snoc, behind_snoc, h.tick, List.filter_append, List.map_append, h.ticks]
      congr 1
      have hstall : s.daemon.tickStalled t = tickGap s.daemon.lastTick t.now := rfl
      rw [hstall]
      rcases hg : tickGap s.daemon.lastTick t.now with _ | _
      · simp [hg]
      · simp [hg]
    case boots =>
      rw [bootsRead_snoc, List.filter_append, List.filterMap_append, h.boots]
      rcases hb : t.boot with _ | n
      · simp only [Option.toList_none, List.append_nil]
        simp [Daemon.bootStalled, hb]
      · simp only [Option.toList_some]
        rw [behind_snoc, h.boot]
        congr 1
        unfold Daemon.bootStalled
        rw [hb]
        rcases hl : s.daemon.lastBoot with _ | l
        · rfl
        · rcases hg : bootGapExceeded l n with _ | _
          · simp [hg]
          · simp [hg, hb]
    case resumed =>
      intro r hr
      rcases List.mem_append.mp hr with hr | hr
      · exact h.resumed r hr
      · obtain rfl := List.mem_singleton.mp hr
        rfl

/-- In every run a tick checks for a resume where the loop's clock, or the boot clock since its last
reading that succeeded, passed the gap, and each such gap is noticed by one tick. -/
theorem run_resumed (s : Whole) (es : List Event) :
    let log := program.log s es
    (log.filter fun r => r.tickStalled).map (fun r => r.read.now) = behind tickGap (ticksRead s log)
      ∧ (log.filter fun r => r.bootStalled).filterMap (fun r => r.read.boot)
        = behind bootGapExceeded (bootsRead s log)
      ∧ ∀ r ∈ log, r.resumed = (r.tickStalled || r.bootStalled) := by
  have hinv := program.invariant (P := fun _ _ => True) (I := fun s' log => Clocked s s' log)
    (fun s' e log _ => event_clocked s s' e log) es
    (program.along_of_forall (fun _ _ => trivial) s es) (h := []) (clocked_start s)
  rw [List.nil_append] at hinv
  exact ⟨hinv.ticks, hinv.boots, hinv.resumed⟩

end Resumes

end ScxFlow
