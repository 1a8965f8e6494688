import ClosedLoop.Cost
import ClosedLoop.Service.Itinerary
import ClosedLoop.Stats.Record

/-!
# The scripted endpoint

An endpoint that answers the calls of each client one after the other as a script says, over and
over.

* `ScriptStep` — the answer to one call.
* `Script.answer` — the itinerary of a call.
-/

namespace ClosedLoop

/-- The answer to one call: after the latency the outcome, or nothing ever without a latency. -/
structure ScriptStep where
  latency : Option Span
  outcome : Outcome
  retryable : Bool

/-- What a scripted call returns. -/
def ScriptStep.reply (s : ScriptStep) : Reply :=
  match s.outcome with
  | .success => .ok ⟨none⟩
  | .failure => .error ((EndpointError.failure "scripted").withRetryable s.retryable)
  | .timeout => .error ((EndpointError.timeout "scripted").withRetryable s.retryable)

/-- The itinerary of a scripted call. -/
def ScriptStep.itinerary (s : ScriptStep) : Itinerary :=
  match s.latency with
  | some d => ⟨[⟨none, [d]⟩], some s.reply⟩
  | none => ⟨[], none⟩

/-- A script and how many calls each client has made. -/
structure Script where
  steps : List ScriptStep
  made : List (ClientId × Nat)

namespace Script

/-- The script before the first call. -/
def ofSteps (steps : List ScriptStep) : Script := ⟨steps, []⟩

/-- How many calls a client has made. -/
def callsOf (s : Script) (client : ClientId) : Nat := (s.made.lookup client).getD 0

/-- One more call of a client. -/
def count (s : Script) (client : ClientId) : Script :=
  { s with
    made := (client, s.callsOf client + 1) :: s.made.filter fun entry => entry.1 ≠ client }

/-- The itinerary of the next call of a client; without any step no call returns. -/
def answer (client : ClientId) : StateM Script Itinerary := fun s =>
  match s.steps[s.callsOf client % s.steps.length]? with
  | some step => (step.itinerary, s.count client)
  | none => (⟨[], none⟩, s)

end Script

end ClosedLoop
