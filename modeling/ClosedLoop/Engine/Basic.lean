import ClosedLoop.Engine.Instance
import ClosedLoop.Engine.Monitor
import ClosedLoop.Profile.Validation
import ClosedLoop.Report.Basic

/-!
# The engine of a run

The engine holds the instances and monitors of all profiles, the ledger, the channel that carries
snapshots and the board on which they are reported. `Engine.step?` is the only way in which it
changes: an action that is possible gives the engine after it and the events that it shows. Which
of the possible actions comes next, how much time passes between them and what calls return is left
open here. In particular a stop is only a signal: an instance or a monitor may still go on for a
while, until it ends at a point where it can be told to.

* `EngineConfig`, `Engine.check`, `EnginePlan`, `Engine.create` — the settings, which settings and
  profiles are accepted, and what is ready to run.
* `Engine.start` — the engine at the start of a run.
* `Action`, `Event`, `Engine.step?`, `Engine.run?` — one action and a sequence of actions.
* `Engine.report?` — the report of a run that has finished.
-/

namespace ClosedLoop

/-- The settings of an engine. -/
structure EngineConfig where
  /-- How long a stopped run waits for its instances and monitors to end. -/
  grace : Span
  /-- The room of the channel for snapshots; without room, room for one. -/
  buffer : Nat
  /-- The seed of the first instance; the others count on from it. -/
  seed : UInt64

/-- Five seconds of grace and room for 64 snapshots. -/
def EngineConfig.standard (seed : UInt64) : EngineConfig := ⟨Span.ofMillis 5000, 64, seed⟩

/-- The room that the channel really has. -/
def EngineConfig.room (c : EngineConfig) : Nat := max c.buffer 1

/-- The channel must be able to count its room. -/
def EngineConfig.check (c : EngineConfig) : Except Fault Unit := checkPlaces c.room

/-- A set of profiles that was checked and the settings, ready to run. -/
structure EnginePlan where
  profiles : List Profile
  config : EngineConfig

/-- How far a run has come. -/
inductive Status where
  | running
  /-- The run was told to end at `since`; `flushes` tells whether the ledger is flushed then. -/
  | draining (flushes : Bool) (since : Nat)
  /-- The ledger was flushed at `elapsed`, after all instances and monitors had ended if `clean`;
  these snapshots are still to be sent. -/
  | flushing (clean : Bool) (elapsed : Nat) (left : List Snapshot)
  | finished (clean : Bool) (elapsed : Nat)
  | failed (fault : Fault)

/-- The state of a run. -/
structure Engine where
  now : Nat
  instances : List Instance
  monitors : List Monitor
  ledger : Ledger
  grace : Span
  /-- The room of the channel. -/
  room : Nat
  /-- The snapshots in the channel, the next one to be received first. -/
  channel : List Snapshot
  /-- The snapshots reported so far, in order. -/
  board : List Snapshot
  /-- The last reported snapshot of every client that has one. -/
  latest : List (ClientId × Snapshot)
  status : Status

/-- What may happen in a run. -/
inductive Action where
  /-- An instance issues its next request. -/
  | issue (i : Nat)
  /-- The call of an instance returns. -/
  | reply (i : Nat) (reply : Reply)
  /-- An instance hands over the record of its reply. -/
  | record (i : Nat)
  /-- An instance ends, because the run was told to. -/
  | quit (i : Nat)
  /-- The awaited tick of a monitor fires. -/
  | cut (m : Nat)
  /-- A monitor puts its snapshot into the channel. -/
  | send (m : Nat)
  /-- A monitor ends, because the run was told to. -/
  | leave (m : Nat)
  /-- The next snapshot of the channel is reported. -/
  | receive
  /-- Time passes. -/
  | advance (target : Nat)
  /-- The run is told to end, with or without a final flush. -/
  | stop (flushes : Bool)
  /-- The ledger is flushed: after all instances and monitors have ended if `clean`, else after
  the time that they are waited for. -/
  | flush (clean : Bool)
  /-- The next of the finally flushed snapshots is put into the channel. -/
  | sendFlushed
  /-- All snapshots are reported and the run is over. -/
  | finish

/-- What an action shows. -/
inductive Event where
  | issued (i : Nat) (time : Nat) (cost : Cost)
  | returned (i : Nat) (time : Nat) (reply : Reply)
  /-- A record was handed over, with the completion that it is counted with; the result tells
  whether it was counted. -/
  | recorded (i : Nat) (record : Record) (result : Except Fault Bool)
  /-- An instance ended, and abandoned a request if one was `inFlight`. -/
  | quit (i : Nat) (inFlight : Bool)
  | ticked (m : Nat) (tick : Nat) (snapshot : Option Snapshot)
  | reported (snapshot : Snapshot)
  | flushed (snapshots : List Snapshot)
  | finished (report : RunReport)

namespace Engine

/-! ### The start of a run -/

/-- What the engine logs for an empty set of profiles. -/
def emptyWarning : String :=
  "engine created without client profiles: nothing will be scheduled"

/-- Which profiles an engine accepts. -/
def check (profiles : List Profile) : Except ConfigError Unit := validateAll profiles

/-- What the creation of an engine logs. -/
def creationWarnings (profiles : List Profile) : List String :=
  if profiles.isEmpty then [emptyWarning] else []

/-- Checks all profiles before anything is started: what is ready to run, and what its creation
logs. -/
def create (profiles : List Profile) (config : EngineConfig) :
    Except ConfigError (EnginePlan × List String) :=
  match check profiles with
  | .error e => .error e
  | .ok () => .ok (⟨profiles, config⟩, creationWarnings profiles)

/-- What the monitors log when they begin. -/
def monitorWarnings (profiles : List Profile) : List String :=
  (profiles.filter fun p => !Monitor.ticks p.monitorPeriod).map fun _ => monitorWarning

/-- The instances of all profiles in order, each with a seed one above the one before. -/
def instancesFrom (seed : UInt64) : List Profile → List Instance
  | [] => []
  | p :: rest =>
    (List.range p.instances.toNat).map
      (fun index => ⟨p, index, Xoshiro.ofSeed (seed + UInt64.ofNat index), .fresh⟩) ++
    instancesFrom (seed + p.instances) rest

/-- The engine at the start of a run. -/
def start (config : EngineConfig) (profiles : List Profile) : Engine where
  now := 0
  instances := instancesFrom config.seed profiles
  monitors := profiles.map Monitor.start
  ledger := Ledger.openFor profiles Span.zero
  grace := config.grace
  room := config.room
  channel := []
  board := []
  latest := []
  status := .running

/-! ### Views -/

/-- The time that the clock of the run shows. -/
def reading (e : Engine) : Span := Clock.reading e.now

/-- Is the run going on? -/
def isRunning (e : Engine) : Bool :=
  match e.status with
  | .running => true
  | _ => false

/-- How many instances have begun and not ended. -/
def totalActive (e : Engine) : Nat := e.instances.countP (·.phase.isActive)

/-- How many instances of a client have begun and not ended; nothing for an unknown client. -/
def active? (e : Engine) (client : ClientId) : Option Nat :=
  if e.monitors.any (·.client = client) then
    some (e.instances.countP fun i => i.client = client && i.phase.isActive)
  else none

/-- The reported snapshots of a client, in order. -/
def historyOf (e : Engine) (client : ClientId) : List Snapshot :=
  e.board.filter (·.client = client)

/-- The last reported snapshot of a client. -/
def latest? (e : Engine) (client : ClientId) : Option Snapshot := e.latest.lookup client

/-- Have all instances and monitors ended? -/
def isQuiet (e : Engine) : Bool :=
  e.instances.all (·.phase.isEnded) && e.monitors.all (·.isStopped)

/-- Is the time over for which instances and monitors are waited for? -/
def isGraceOver (e : Engine) (since : Nat) : Bool := since + e.grace.nanos ≤ e.now

/-- The report of a run that ends now. -/
def reportAt (e : Engine) (clean : Bool) (elapsed : Nat) : RunReport where
  elapsed := Clock.reading elapsed
  snapshots := e.board
  totals := e.ledger.totals
  cleanShutdown := clean

/-- The report of a run that has finished. -/
def report? (e : Engine) : Option RunReport :=
  match e.status with
  | .finished clean elapsed => some (e.reportAt clean elapsed)
  | _ => none

/-! ### Actions -/

/-- The engine with an instance replaced. -/
def setInstance (e : Engine) (i : Nat) (inst : Instance) : Engine :=
  { e with instances := e.instances.set i inst }

/-- The engine with a monitor replaced. -/
def setMonitor (e : Engine) (m : Nat) (monitor : Monitor) : Engine :=
  { e with monitors := e.monitors.set m monitor }

/-- Is there room in the channel? -/
def hasRoom (e : Engine) : Bool := e.channel.length < e.room

/-- The engine with one more snapshot in the channel. -/
def push (e : Engine) (s : Snapshot) : Engine := { e with channel := e.channel ++ [s] }

/-- An instance issues its next request. -/
def issue? (e : Engine) (i : Nat) : Option (Engine × List Event) := do
  let inst ← e.instances[i]?
  let (next, cost) ← inst.issue? e.now
  return (e.setInstance i next, [.issued i e.now cost])

/-- The call of an instance returns. -/
def reply? (e : Engine) (i : Nat) (reply : Reply) : Option (Engine × List Event) := do
  let inst ← e.instances[i]?
  let next ← inst.receive? e.now reply
  return (e.setInstance i next, [.returned i e.now reply])

/-- An instance hands over the record of its reply. One whose record cannot be counted ends. -/
def record? (e : Engine) (i : Nat) : Option (Engine × List Event) := do
  let inst ← e.instances[i]?
  let (next, record) ← inst.handOver? e.now
  let (ledger, result) := e.ledger.recordCompleted e.reading record
  let after := match result with
    | .ok _ => next
    | .error _ => inst.crash
  return ({ e with ledger }.setInstance i after,
    [.recorded i (record.completedBy e.reading) result])

/-- An instance ends, because the run was told to. -/
def quit? (e : Engine) (i : Nat) : Option (Engine × List Event) := do
  guard !e.isRunning
  let inst ← e.instances[i]?
  let next ← inst.quit?
  return (e.setInstance i next, [.quit i inst.phase.isAwaiting])

/-- The awaited tick of a monitor fires. A monitor whose window cannot be cut ends. -/
def cut? (e : Engine) (m : Nat) : Option (Engine × List Event) := do
  let monitor ← e.monitors[m]?
  guard (monitor.isDue e.now)
  match monitor.phase with
  | .waiting tick =>
    let (ledger, result) := e.ledger.take e.reading monitor.client
    let phase := match result with
      | .ok none => .waiting (tick + 1)
      | .ok (some s) => .sending (tick + 1) s
      | .error _ => .stopped
    let shown := match result with
      | .ok snapshot => snapshot
      | .error _ => none
    return ({ e with ledger }.setMonitor m { monitor with phase }, [.ticked m tick shown])
  | _ => none

/-- A monitor puts its snapshot into the channel. -/
def send? (e : Engine) (m : Nat) : Option (Engine × List Event) := do
  guard e.hasRoom
  let monitor ← e.monitors[m]?
  match monitor.phase with
  | .sending tick s => return ((e.push s).setMonitor m { monitor with phase := .waiting tick }, [])
  | _ => none

/-- A monitor ends, because the run was told to. -/
def leave? (e : Engine) (m : Nat) : Option (Engine × List Event) := do
  guard !e.isRunning
  let monitor ← e.monitors[m]?
  let next ← monitor.quit?
  return (e.setMonitor m next, [])

/-- The engine after a snapshot was reported. -/
def report (e : Engine) (s : Snapshot) : Engine :=
  { e with
    board := e.board ++ [s]
    latest := (s.client, s) :: e.latest.filter fun entry => entry.1 ≠ s.client }

/-- The next snapshot of the channel is reported. -/
def receive? (e : Engine) : Option (Engine × List Event) :=
  match e.channel with
  | s :: rest => some ({ e with channel := rest }.report s, [.reported s])
  | [] => none

/-- Time passes, within the range of the clock. -/
def advance? (e : Engine) (target : Nat) : Option (Engine × List Event) :=
  if e.now ≤ target && target ≤ Clock.range then some ({ e with now := target }, []) else none

/-- The run is told to end. -/
def stop? (e : Engine) (flushes : Bool) : Option (Engine × List Event) :=
  if e.isRunning then some ({ e with status := .draining flushes e.now }, []) else none

/-- The ledger is flushed at the end of the run. -/
def flush? (e : Engine) (clean : Bool) : Option (Engine × List Event) :=
  match e.status with
  | .draining true since =>
    if if clean then e.isQuiet else e.isGraceOver since then
      let (ledger, result) := e.ledger.flush e.reading
      match result with
      | .ok left => some ({ e with ledger, status := .flushing clean e.now left }, [.flushed left])
      | .error fault => some ({ e with ledger, status := .failed fault }, [])
    else none
  | _ => none

/-- The next of the finally flushed snapshots is put into the channel. -/
def sendFlushed? (e : Engine) : Option (Engine × List Event) :=
  match e.status with
  | .flushing clean elapsed (s :: left) =>
    if e.hasRoom then some ({ e.push s with status := .flushing clean elapsed left }, []) else none
  | _ => none

/-- All snapshots are reported and the run is over. Nothing more can be reported once no monitor is
left to send anything. -/
def finish? (e : Engine) : Option (Engine × List Event) :=
  match e.status, e.channel with
  | .flushing clean elapsed [], [] =>
    if e.monitors.all (·.isStopped) then
      some ({ e with status := .finished clean elapsed }, [.finished (e.reportAt clean elapsed)])
    else none
  | _, _ => none

/-- The engine after an action and the events that the action shows, if it is possible. -/
def step? (e : Engine) : Action → Option (Engine × List Event)
  | .issue i => e.issue? i
  | .reply i reply => e.reply? i reply
  | .record i => e.record? i
  | .quit i => e.quit? i
  | .cut m => e.cut? m
  | .send m => e.send? m
  | .leave m => e.leave? m
  | .receive => e.receive?
  | .advance target => e.advance? target
  | .stop flushes => e.stop? flushes
  | .flush clean => e.flush? clean
  | .sendFlushed => e.sendFlushed?
  | .finish => e.finish?

/-- The engine after a sequence of actions and the events that they show in order. -/
def run? (e : Engine) : List Action → Option (Engine × List Event)
  | [] => some (e, [])
  | a :: rest => do
    let (next, shown) ← e.step? a
    let (last, later) ← next.run? rest
    return (last, shown ++ later)

end Engine

end ClosedLoop
