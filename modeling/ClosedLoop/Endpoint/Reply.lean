import ClosedLoop.Span

/-!
# Replies of an endpoint

A call of an endpoint returns a completion or an error. An error is never fatal: it is counted, and
the instance that made the call goes on.

* `Completion`, `EndpointError`, `Reply` — what a call returns.
* `EndpointError.text` — the wording of an error.
-/

namespace ClosedLoop

/-- A call that went well. -/
structure Completion where
  /-- The time charged for the call alone, without waiting in queues, if the endpoint knows it. -/
  serviceTime : Option Span

/-- The kinds of failed calls; timeouts are counted separately. -/
inductive FailureKind where
  | failure
  | timeout
  deriving DecidableEq, Repr

/-- A call that failed. -/
structure EndpointError where
  kind : FailureKind
  message : String
  /-- May the call be tried again? The engine takes no notice of it. -/
  retryable : Bool

namespace EndpointError

/-- A failure with a message. -/
def failure (message : String) : EndpointError := ⟨.failure, message, false⟩

/-- A timeout with a message. -/
def timeout (message : String) : EndpointError := ⟨.timeout, message, false⟩

/-- The error marked as retryable or not. -/
def withRetryable (e : EndpointError) (retryable : Bool) : EndpointError :=
  { e with retryable }

/-- Is this a timeout? -/
def isTimeout (e : EndpointError) : Bool := e.kind = .timeout

/-- The wording of an error. -/
def text (e : EndpointError) : String :=
  match e.kind with
  | .failure => s!"EndpointFailure: {e.message}"
  | .timeout => s!"EndpointTimeout: {e.message}"

end EndpointError

/-- What a call returns. -/
abbrev Reply := Except EndpointError Completion

/-- A setting with which an endpoint cannot be built. -/
structure SetupError where
  message : String

end ClosedLoop
