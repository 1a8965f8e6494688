/-!
# The states of an instance

An instance goes round: it is idle, issues a request, awaits the completion, records it and is idle
again. From every state of the round it can be stopped, and nothing leaves that state.

* `Lifecycle.canMoveTo` — the allowed moves.
-/

namespace ClosedLoop

/-- Where an instance is in its round. -/
inductive Lifecycle where
  | idle
  | issuing
  | awaitingCompletion
  | recording
  | stopped
  deriving DecidableEq, Repr

namespace Lifecycle

/-- The allowed moves: around the loop, and from each of its states to the end. -/
def canMoveTo : Lifecycle → Lifecycle → Bool
  | idle, issuing => true
  | issuing, awaitingCompletion => true
  | awaitingCompletion, recording => true
  | recording, idle => true
  | stopped, _ => false
  | _, stopped => true
  | _, _ => false

@[simp] theorem canMoveTo_stopped (s : Lifecycle) : s.canMoveTo stopped = (s ≠ stopped) := by
  cases s <;> simp [canMoveTo]

@[simp] theorem stopped_canMoveTo (s : Lifecycle) : stopped.canMoveTo s = false := rfl

end Lifecycle

end ClosedLoop
