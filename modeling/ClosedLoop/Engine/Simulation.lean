import ClosedLoop.Endpoint.Behaviour
import ClosedLoop.Engine.Basic
import ClosedLoop.Service.Traffic

/-!
# Runs on the clock

A simulation drives an engine against an endpoint. As long as something can happen at the present
instant it happens; only then does time pass, to the next timer.

* `Simulation.next?` — what happens next at the present instant.
* `Simulation.perform` — the simulation after it.
* `Simulation.runUntil` — everything up to an instant, with at most so many happenings.
* `Simulation.sleepUntil?`, `stop?`, `drop?` — what the owner of a run can do.
-/

namespace ClosedLoop

/-- A call that has returned. -/
structure FinishedCall where
  started : Nat
  finished : Nat
  client : ClientId
  cost : Cost

/-- An engine, an endpoint and the calls between them. The calls are numbered by their instances. -/
structure Simulation (b : Behaviour) where
  engine : Engine
  endpoint : b.State
  traffic : Traffic
  /-- The calls that have returned, latest first. -/
  finished : List FinishedCall

/-- What may happen at an instant. -/
inductive Happening where
  | action (a : Action)
  /-- An instance issues a request, and the call sets out. -/
  | call (i : Nat)
  /-- A call in service moves on. -/
  | move (c : Call)

/-! ### What the engine can do at an instant -/

namespace Engine

/-- Something to do with snapshots: they are reported as soon as possible, then sent. -/
def delivery? (e : Engine) : Option Action :=
  match e.channel with
  | _ :: _ => some .receive
  | [] => (e.monitors.findIdx? Monitor.isSending).map .send

/-- How an instance comes to its end once the run was told to end: one that has not begun issues a
request first. -/
def ending (i : Nat) (inst : Instance) : Action :=
  match inst.phase with
  | .fresh => .issue i
  | _ => .quit i

/-- Something to do at the end of a run: all instances end, then all monitors, and the ledger is
flushed after them. -/
def closing? (e : Engine) : Option Action :=
  if e.isRunning then none
  else
    match e.instances.findIdx? (!·.phase.isEnded) with
    | some i => e.instances[i]?.map (ending i)
    | none =>
      match e.monitors.findIdx? (!·.isStopped) with
      | some m => some (.leave m)
      | none =>
        match e.status with
        | .draining true _ => some (.flush true)
        | .flushing _ _ (_ :: _) => some .sendFlushed
        | .flushing _ _ [] => some .finish
        | _ => none

/-- The first instance that may issue a request. -/
def issuer? (e : Engine) : Option Nat := e.instances.findIdx? (·.canIssue e.now)

/-- The first monitor whose tick has fired. -/
def dueMonitor? (e : Engine) : Option Nat := e.monitors.findIdx? (·.isDue e.now)

/-- When the next timer of an instance or a monitor fires. -/
def nextWake? (e : Engine) : Option Nat :=
  let ofInstances := e.instances.foldl (fun best i => Traffic.earlier? best i.phase.wake?) none
  e.monitors.foldl (fun best m => Traffic.earlier? best m.wake?) ofInstances

end Engine

namespace Simulation

variable {b : Behaviour}

/-- A run before anything has happened. -/
def start (b : Behaviour) (config : EngineConfig) (profiles : List Profile) : Simulation b where
  engine := Engine.start config profiles
  endpoint := b.start
  traffic := Traffic.idle b.capacity
  finished := []

/-- What happens next at the present instant: snapshots are delivered first, then calls in service
move on, then instances issue requests, and monitors cut last. -/
def next? (s : Simulation b) : Option Happening :=
  match s.engine.delivery?.or s.engine.closing? with
  | some a => some (.action a)
  | none =>
    if s.engine.isRunning then
      match s.traffic.due? s.engine.now with
      | some c => some (.move c)
      | none =>
        match s.engine.issuer? with
        | some i => some (.call i)
        | none => s.engine.dueMonitor?.map fun m => .action (.cut m)
    else none

/-- The simulation after an action of the engine; nothing changes if it is not possible. -/
def act (s : Simulation b) (a : Action) : Simulation b :=
  match s.engine.step? a with
  | some (engine, _) => { s with engine }
  | none => s

/-- The call of an instance as it is kept when it returns. -/
def callOf? (s : Simulation b) (i : Nat) : Option FinishedCall := do
  let inst ← s.engine.instances[i]?
  match inst.phase with
  | .awaiting issued cost => some ⟨issued, s.engine.now, inst.client, cost⟩
  | _ => none

/-- Hands the replies among the passages of calls to their instances, which hand over their records
at once. -/
def deliver (s : Simulation b) : List Passage → Simulation b
  | [] => s
  | .returns i reply :: rest =>
    let returned := { s with finished := (s.callOf? i).toList ++ s.finished }.act (.reply i reply)
    (returned.act (.record i)).deliver rest
  | _ :: rest => s.deliver rest

/-- The simulation after a move of the calls in service. -/
def moved (s : Simulation b) (move : Traffic × List Passage) : Simulation b :=
  { s with traffic := move.1 }.deliver move.2

/-- An instance issues a request, and the endpoint decides on the itinerary of the call. -/
def call (s : Simulation b) (i : Nat) : Simulation b :=
  match s.engine.issue? i with
  | some (engine, [.issued _ _ cost]) =>
    match engine.instances[i]? with
    | some inst =>
      let (itinerary, endpoint) := b.answer inst.client cost s.endpoint
      { s with engine, endpoint }.moved (s.traffic.submit engine.now i itinerary)
    | none => s
  | _ => s

/-- The simulation after something has happened. -/
def perform (s : Simulation b) : Happening → Simulation b
  | .action a => s.act a
  | .call i => s.call i
  | .move c => s.moved (s.traffic.expire s.engine.now c)

/-- When the next timer fires. -/
def nextWake? (s : Simulation b) : Option Nat :=
  if s.engine.isRunning then Traffic.earlier? s.traffic.nextWake? s.engine.nextWake? else none

/-- Everything that happens up to an instant, if that is at most `fuel` happenings. Instances that
take no time for a round keep an instant from ending. -/
def runUntil (target : Nat) : Nat → Simulation b → Option (Simulation b)
  | 0, _ => none
  | fuel + 1, s =>
    match s.next? with
    | some h => runUntil target fuel (s.perform h)
    | none =>
      match s.nextWake? with
      | some t =>
        if t ≤ target then runUntil target fuel (s.act (.advance t))
        else some (s.act (.advance target))
      | none => some (s.act (.advance target))

/-! ### What the owner of a run can do -/

/-- How many happenings the owner of a run waits for. It bounds the simulation and nothing else: a
run that takes more happenings gives no result here, though it may come to its end. -/
def patience : Nat := 1000000000

/-- Lets time pass up to an instant. -/
def sleepUntil? (s : Simulation b) (target : Nat) : Option (Simulation b) :=
  runUntil target patience s

/-- Ends the run, with a final flush or without. The calls in service are abandoned. -/
def endRun? (s : Simulation b) (flushes : Bool) : Option (Simulation b) :=
  let abandoned : Simulation b := { s with traffic := Traffic.idle b.capacity }
  runUntil s.engine.now patience (abandoned.act (.stop flushes))

/-- Ends the run with a final flush. -/
def stop? (s : Simulation b) : Option (Simulation b) := s.endRun? true

/-- Ends the run without a final flush. -/
def drop? (s : Simulation b) : Option (Simulation b) := s.endRun? false

end Simulation

end ClosedLoop
