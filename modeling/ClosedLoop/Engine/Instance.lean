import ClosedLoop.Clock
import ClosedLoop.Cost
import ClosedLoop.Endpoint.Reply
import ClosedLoop.Engine.Lifecycle
import ClosedLoop.Stats.Record

/-!
# Instances

An instance is one closed loop: it issues a request, awaits its reply, hands over a record and rests
for the think time of its profile before it issues the next one. It draws the costs of its requests
from a source of its own. It can be told to end while it awaits a reply and while it rests.

* `Instance`, `Phase` — an instance and what it does at present.
* `Instance.issue?`, `Instance.receive?`, `Instance.handOver?`, `Instance.quit?` — its turns.
* `Turn`, `Instance.turn?`, `Turn.visits` — the turns as data, with the states they pass through.
-/

namespace ClosedLoop

/-- How a reply is counted. -/
def Reply.outcome : Reply → Outcome
  | .ok _ => .success
  | .error e => if e.isTimeout then .timeout else .failure

/-- What an instance does at present. -/
inductive Phase where
  /-- It has not begun. -/
  | fresh
  /-- It rests until a timer fires. -/
  | resting (wake : Nat)
  /-- It awaits the reply to a request. -/
  | awaiting (issued : Nat) (cost : Cost)
  /-- The reply has come, and its record is still to be handed over. -/
  | recording (record : Record)
  /-- It has ended. -/
  | stopped
  /-- Its record could not be counted, which ended it in the middle of its round. -/
  | crashed

namespace Phase

/-- The place of a phase in the round of an instance. -/
def lifecycle : Phase → Lifecycle
  | fresh => .idle
  | resting _ => .idle
  | awaiting _ _ => .awaitingCompletion
  | recording _ => .recording
  | crashed => .recording
  | stopped => .stopped

/-- Does a request of the instance await its reply? -/
def isAwaiting : Phase → Bool
  | awaiting _ _ => true
  | _ => false

/-- Has the instance ended? -/
def isEnded : Phase → Bool
  | stopped => true
  | crashed => true
  | _ => false

/-- Has the instance begun and not ended? -/
def isActive : Phase → Bool
  | fresh => false
  | phase => !phase.isEnded

/-- When the instance issues its next request, if it is not waiting for a reply. -/
def wake? : Phase → Option Nat
  | fresh => some 0
  | resting wake => some wake
  | _ => none

end Phase

/-- One closed loop. -/
structure Instance where
  profile : Profile
  /-- Its number among the instances of its profile. -/
  index : Nat
  words : Xoshiro
  phase : Phase

/-- The text that identifies an instance. -/
def instanceText (client : ClientId) (index : Nat) : String := s!"{client.text}#{index}"

namespace Instance

/-- The client that the instance belongs to. -/
def client (i : Instance) : ClientId := i.profile.id

/-- May the instance issue a request now? -/
def canIssue (i : Instance) (now : Nat) : Bool :=
  match i.phase.wake? with
  | some t => t ≤ now
  | none => false

/-- Issues the next request: draws its cost and awaits the reply. -/
def issue? (i : Instance) (now : Nat) : Option (Instance × Cost) :=
  if i.canIssue now then
    let (cost, words) := i.profile.drawCost i.words
    some ({ i with words, phase := .awaiting now cost }, cost)
  else none

/-- The record of a reply to the request that was issued at `issued`. -/
def recordOf (i : Instance) (issued now : Nat) (cost : Cost) (reply : Reply) : Record where
  client := i.client
  instanceIndex := i.index
  issued := Clock.reading issued
  completed := Clock.reading now
  request := cost.request
  response := cost.response
  outcome := reply.outcome

/-- Takes the reply to the request. -/
def receive? (i : Instance) (now : Nat) (reply : Reply) : Option Instance :=
  match i.phase with
  | .awaiting issued cost => some { i with phase := .recording (i.recordOf issued now cost reply) }
  | _ => none

/-- Hands over the record of the reply and rests for the think time. -/
def handOver? (i : Instance) (now : Nat) : Option (Instance × Record) :=
  match i.phase with
  | .recording record =>
    some ({ i with phase := .resting (Clock.wake now i.profile.thinkPeriod) }, record)
  | _ => none

/-- Ends the instance where it can be told to end; a request in flight is abandoned. -/
def quit? (i : Instance) : Option Instance :=
  match i.phase with
  | .awaiting _ _ => some { i with phase := .stopped }
  | .resting _ => some { i with phase := .stopped }
  | _ => none

/-- The instance after its record could not be counted. -/
def crash (i : Instance) : Instance := { i with phase := .crashed }

end Instance

/-! ### Turns as data -/

/-- A turn of an instance. -/
inductive Turn where
  | issue (now : Nat)
  | receive (now : Nat) (reply : Reply)
  | handOver (now : Nat)
  | quit

/-- The states that an instance passes through in a turn, the last being the one it stays in. -/
def Turn.visits : Turn → List Lifecycle
  | .issue _ => [.issuing, .awaitingCompletion]
  | .receive _ _ => [.recording]
  | .handOver _ => [.idle]
  | .quit => [.stopped]

namespace Instance

/-- The instance after a turn and the record it hands over, if the turn is possible. -/
def turn? (i : Instance) : Turn → Option (Instance × Option Record)
  | .issue now => (i.issue? now).map fun (next, _) => (next, none)
  | .receive now reply => (i.receive? now reply).map fun next => (next, none)
  | .handOver now => (i.handOver? now).map fun (next, record) => (next, some record)
  | .quit => i.quit?.map fun next => (next, none)

/-- The instance after a sequence of turns and the records it handed over. -/
def turns? (i : Instance) : List Turn → Option (Instance × List Record)
  | [] => some (i, [])
  | t :: rest => do
    let (next, record) ← i.turn? t
    let (last, records) ← next.turns? rest
    return (last, record.toList ++ records)

end Instance

end ClosedLoop
