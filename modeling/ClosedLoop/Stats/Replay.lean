import ClosedLoop.Clock
import ClosedLoop.Stats.Ledger

/-!
# Sequences of ledger operations

A replay is a ledger with the clock that its operations read.

* `Operation`, `Answer` — one operation with its arguments, and what it answers.
* `Answer.snapshots` — the snapshots that an operation gives out.
* `Replay.perform`, `Replay.performAll` — one operation and a sequence of them.
-/

namespace ClosedLoop

/-- An operation on a ledger, or the passing of time. -/
inductive Operation where
  | advance (d : Span)
  | record (r : Record)
  | recordCompleted (r : Record)
  | take (client : ClientId)
  | flush

/-- What an operation answers. -/
inductive Answer where
  | advanced (result : Except Fault Unit)
  | recorded (result : Except Fault Bool)
  | taken (result : Except Fault (Option Snapshot))
  | flushed (result : Except Fault (List Snapshot))

/-- The fault that an operation ended in, if any. -/
def Answer.fault? : Answer → Option Fault
  | .advanced (.error fault) => some fault
  | .recorded (.error fault) => some fault
  | .taken (.error fault) => some fault
  | .flushed (.error fault) => some fault
  | _ => none

/-- The snapshots that an operation gives out. -/
def Answer.snapshots : Answer → List Snapshot
  | .taken (.ok snapshot) => snapshot.toList
  | .flushed (.ok snapshots) => snapshots
  | _ => []

/-- A ledger and the clock that its operations read. -/
structure Replay where
  now : Span
  ledger : Ledger

namespace Replay

/-- The ledger for a set of profiles that is opened when the clock shows `begun`. -/
def openedAt (begun : Span) (profiles : List Profile) : Replay :=
  ⟨begun, Ledger.openFor profiles begun⟩

/-- The ledger for a set of profiles at the start of the clock. -/
def start (profiles : List Profile) : Replay := openedAt Span.zero profiles

/-- One operation. -/
def perform (s : Replay) : Operation → Replay × Answer
  | .advance d =>
    match Clock.after s.now.nanos d with
    | .ok t => ({ s with now := Clock.reading t }, .advanced (.ok ()))
    | .error fault => (s, .advanced (.error fault))
  | .record r =>
    let (ledger, result) := s.ledger.record r
    ({ s with ledger }, .recorded result)
  | .recordCompleted r =>
    let (ledger, result) := s.ledger.recordCompleted s.now r
    ({ s with ledger }, .recorded result)
  | .take client =>
    let (ledger, result) := s.ledger.take s.now client
    ({ s with ledger }, .taken result)
  | .flush =>
    let (ledger, result) := s.ledger.flush s.now
    ({ s with ledger }, .flushed result)

/-- A sequence of operations, with all answers in order. -/
def performAll (s : Replay) : List Operation → Replay × List Answer
  | [] => (s, [])
  | op :: rest =>
    let (next, answer) := s.perform op
    let (last, answers) := next.performAll rest
    (last, answer :: answers)

end Replay

end ClosedLoop
