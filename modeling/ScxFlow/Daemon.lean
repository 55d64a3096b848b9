import ScxFlow.Core
import ScxFlow.Lib.Channel
import ScxFlow.Topology

/-!
# The daemon

The loop of `main.rs` with the page's threads of `webui.rs`.  A tick answers a poll of the stats
server, pushes a snapshot for the page while the bounded channel has room, and checks for a resume;
the page's thread keeps the newest snapshot it received, and its server answers from that.  A run
interleaves these with the turns of the core.
-/

namespace ScxFlow

/-- One card of the page. -/
structure PerCpuMetrics where
  id : UInt32
  smt : Bool
  runningPid : UInt32
  sliceNs : UInt64
  deriving DecidableEq

/-- `struct WebMetrics`, but for the version of the build. -/
structure WebMetrics where
  stats : Metrics
  perCpu : List PerCpuMetrics
  timestampNs : UInt64
  topology : String

/-- `WebMetrics::default`, which the page shows before the first snapshot. -/
def WebMetrics.none : WebMetrics := ⟨⟨0, 0, 0, fun _ => 0⟩, [], 0, ""⟩

/-- What `struct Scheduler` keeps for the page besides its polls, with the two clocks of `run`. -/
structure Daemon where
  sched : Scheduler
  smt : List Bool
  topology : String
  lastTick : ℕ
  lastBoot : Option ℕ

/-- What the host answers a discovery, and what it answers the start log behind it. -/
structure Host where
  topo : Option HostTopology
  fs : Sysfs
  logTopo : Option HostTopology

def topoRows (h : Host) : List TopoRow := initTopology h.topo h.fs

def smtFlags (rows : List TopoRow) : List Bool := rows.map fun row => isSmtThread row.cpu row.sib

/-- Nanoseconds since the epoch, as the page shows them. -/
def timestampNs (sinceEpoch : Option ℕ) : UInt64 :=
  match sinceEpoch with
  | some n => UInt64.ofNat (min n u64Max.toNat)
  | none => 0

/-- `RESUME_GAP_SECS` in nanoseconds. -/
def resumeGap : ℕ := 5000000000

/-- What `clock_gettime` returns and leaves in the timespec. -/
structure ClockReading where
  rc : ℤ
  sec : ℤ
  nsec : ℤ

/-- `boot_now`: the reading of the clock, where it is a time. -/
def bootNow (r : ClockReading) : Option ℕ :=
  if r.rc ≠ 0 then none
  else if r.sec < 0 ∨ r.nsec < 0 ∨ r.nsec ≥ 1000000000 then none
  else some (r.sec.toNat * 1000000000 + r.nsec.toNat)

def bootGapExceeded (last now : ℕ) : Bool := decide (last ≤ now ∧ now - last > resumeGap)

/-- `get_web_metrics`. -/
def getWebMetrics (w : World) (d : Daemon) (elapsed : ℕ) (sinceEpoch : Option ℕ) :
    WebMetrics where
  stats := getMetrics w d.sched elapsed
  perCpu := d.sched.onlineCpus.zipIdx.map fun (id, rank) =>
    ⟨id, d.smt[rank]?.getD false, (readCpu w id.toNat).runningPid, flowQuantumNs⟩
  timestampNs := timestampNs sinceEpoch
  topology := d.topology

section Loop

/-- What one tick of the loop reads. -/
structure Tick where
  /-- The stats server asked within the timeout. -/
  request : Bool
  elapsed : ℕ
  sinceEpoch : Option ℕ
  now : ℕ
  bootClock : ClockReading
  host : Host

/-- The boot time of a tick, where its clock could be read. -/
def Tick.boot (t : Tick) : Option ℕ := bootNow t.bootClock

/-- The bound of the channel. -/
@[simp] def webBound : ℕ := 16

/-- The page's side: the channel and the snapshot behind the lock. -/
structure Web where
  channel : Channel webBound WebMetrics
  shown : WebMetrics

def Web.start : Web := ⟨.empty, .none⟩

/-- The poll of a tick: the page's side after it, the snapshot it pushed, and the reply. -/
def Daemon.poll (d : Daemon) (w : World) (web : Option Web) (t : Tick) :
    Option Web × List WebMetrics × Option Metrics :=
  let reply := if t.request then some (getMetrics w d.sched t.elapsed) else none
  match web with
  | none => (none, [], reply)
  | some web =>
    if web.channel.isFull then (some web, [], reply)
    else
      let frame := getWebMetrics w d t.elapsed t.sinceEpoch
      (some { web with channel := web.channel.trySend frame }, [frame],
        if t.request then some frame.stats else none)

/-- Whether the boot clock passed the bound since its last reading. -/
def Daemon.bootStalled (d : Daemon) (t : Tick) : Bool :=
  match d.lastBoot, t.boot with
  | some l, some n => bootGapExceeded l n
  | _, _ => false

/-- Whether the loop itself stalled since its last tick. -/
def Daemon.tickStalled (d : Daemon) (t : Tick) : Bool := decide (t.now - d.lastTick > resumeGap)

/-- Whether the tick reads as behind a resume. -/
def Daemon.resumed (d : Daemon) (t : Tick) : Bool := d.tickStalled t || d.bootStalled t

/-- The resume check of a tick. -/
def Daemon.check (d : Daemon) (w : World) (t : Tick) : Daemon × World :=
  let clocks := { d with
    lastTick := t.now
    lastBoot := if t.boot.isSome then t.boot else d.lastBoot }
  if d.resumed t then
    match reseedIfChanged d.sched.seeded (topoRows t.host) with
    | none => (clocks, w)
    | some rows =>
      ({ clocks with
        sched := ⟨rows.map TopoRow.cpu, rows⟩
        smt := smtFlags rows
        topology := describeTopology t.host.logTopo rows }, seedTopoWith w rows)
  else (clocks, w)

/-- `Scheduler::init`, what it seeds and keeps, and the clocks at the start of `run`. -/
def Daemon.init (w : World) (h : Host) (now : ℕ) (boot : Option ℕ) : Daemon × World :=
  let rows := topoRows h
  (⟨⟨rows.map TopoRow.cpu, rows⟩, smtFlags rows, describeTopology h.logTopo rows, now, boot⟩,
    seedTopoWith w rows)

end Loop

section Program

/-- A response of the page's server. -/
inductive Response
  | page
  | json (snap : WebMetrics)
  | notFound

/-- The handler of one request. -/
def Web.serve (web : Web) (url : String) : Response :=
  if url = "/" then .page
  else if url = "/api/stats" ∨ url = "/api/snapshot" then .json web.shown
  else .notFound

/-- The page's thread keeps the oldest snapshot of the channel, if there is one. -/
def Web.keep (web : Web) : Web :=
  match web.channel.recv with
  | none => web
  | some (frame, channel) => ⟨channel, frame⟩

structure Whole where
  world : World
  daemon : Daemon
  web : Option Web

inductive Event
  | turn (t : Turn)
  | tick (t : Tick)
  | keep

def Whole.step (s : Whole) : Event → Whole
  | .turn t => { s with world := core.step s.world t }
  | .tick t =>
    let poll := s.daemon.poll s.world s.web t
    let check := s.daemon.check s.world t
    ⟨check.2, check.1, poll.1⟩
  | .keep => { s with web := s.web.map Web.keep }

/-- What a tick read and did. -/
structure Ticked where
  read : Tick
  reply : Option Metrics
  tickStalled : Bool
  bootStalled : Bool
  resumed : Bool

/-- The whole program, logging its ticks. -/
def program : Machine Whole Event Ticked where
  step := Whole.step
  out s e := match e with
    | .tick t =>
      let poll := s.daemon.poll s.world s.web t
      [⟨t, poll.2.2, s.daemon.tickStalled t, s.daemon.bootStalled t, s.daemon.resumed t⟩]
    | _ => []

/-- A snapshot that the loop pushed, or that the page came to show. -/
inductive Frame
  | pushed (snap : WebMetrics)
  | shown (snap : WebMetrics)

/-- The whole program, logging its frames: what a tick pushes, and what the page shows behind each
step of its thread that finds a snapshot. -/
def page : Machine Whole Event Frame where
  step := Whole.step
  out s e := match e, s.web with
    | .tick t, _ => (s.daemon.poll s.world s.web t).2.1.map .pushed
    | .keep, some web => if web.channel.held = [] then [] else [.shown web.keep.shown]
    | _, _ => []

end Program

end ScxFlow
