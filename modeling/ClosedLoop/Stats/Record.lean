import ClosedLoop.Profile.Basic

/-!
# Records of finished calls

* `Outcome` — how a call ended; a timeout is a kind of failure.
* `Record` — one finished call as the statistics see it.
* `Tally` — the counters, `Tally.count` one more call.
-/

namespace ClosedLoop

/-- How a call ended. -/
inductive Outcome where
  | success
  | failure
  | timeout
  deriving DecidableEq, Repr

/-- One finished call. -/
structure Record where
  client : ClientId
  /-- The number of the instance among those of its client. -/
  instanceIndex : Nat
  issued : Span
  completed : Span
  request : Float
  response : Float
  outcome : Outcome

namespace Record

/-- The time from issue to completion, none if the stamps are the other way round. -/
def latency (r : Record) : Span := r.completed.since r.issued

/-- The record with a completion not before `now`. -/
def completedBy (now : Span) (r : Record) : Record :=
  { r with completed := max r.completed now }

end Record

/-- Counters of finished calls. Failures include timeouts. -/
structure Tally where
  requests : Nat
  successes : Nat
  failures : Nat
  timeouts : Nat
  deriving DecidableEq, Repr

namespace Tally

/-- Nothing counted. -/
def zero : Tally := ⟨0, 0, 0, 0⟩

/-- One more call. -/
def count (t : Tally) : Outcome → Tally
  | .success => { t with requests := t.requests + 1, successes := t.successes + 1 }
  | .failure => { t with requests := t.requests + 1, failures := t.failures + 1 }
  | .timeout =>
    { t with
      requests := t.requests + 1
      failures := t.failures + 1
      timeouts := t.timeouts + 1 }

@[simp] theorem requests_count (t : Tally) (o : Outcome) :
    (t.count o).requests = t.requests + 1 := by
  cases o <;> rfl

end Tally

end ClosedLoop
