import ClosedLoop.Cost
import ClosedLoop.Service.Itinerary

/-!
# The mock endpoint

An endpoint that takes no notice of the cost of a request: it answers after a base latency with some
jitter, and fails or times out at given rates.

* `MockConfig`, `MockEndpoint.build` — the settings, and the endpoint if they make sense.
* `MockEndpoint.fixed`, `instant`, `alwaysFailing` — the endpoints used for measurements.
* `MockEndpoint.answer` — the itinerary of a call.
-/

namespace ClosedLoop

/-- The settings of a mock endpoint; times are in seconds. -/
structure MockConfig where
  baseLatency : Float
  jitter : Float
  errorRate : Float32
  timeoutRate : Float32
  /-- How long a call that times out takes after its delay. -/
  timeout : Float

/-- A mock endpoint whose settings were checked. -/
structure MockEndpoint where
  baseLatency : Float
  jitter : Float
  errorRate : Float32
  timeoutRate : Float32
  timeout : Span

namespace MockEndpoint

/-- A rate moved into the interval from zero to one; zero for what is not a number. -/
def clampRate (rate : Float32) : Float32 :=
  if rate.isNaN then 0
  else if rate < 0 then 0
  else if 1 < rate then 1
  else rate

/-- The endpoint with these settings, unless the rates exceed one together. -/
def build (c : MockConfig) : Except SetupError MockEndpoint :=
  let errorRate := clampRate c.errorRate
  let timeoutRate := clampRate c.timeoutRate
  if 1 < errorRate + timeoutRate then .error ⟨"timeout_rate + error_rate must be <= 1.0"⟩
  else
    .ok {
      baseLatency := atLeastZero c.baseLatency
      jitter := atLeastZero c.jitter
      errorRate
      timeoutRate
      timeout := Span.ofSeconds c.timeout }

/-- Every call goes well at once. -/
def instant : MockEndpoint := ⟨0, 0, 0, 0, Span.zero⟩

/-- Every call fails at once. -/
def alwaysFailing : MockEndpoint := { instant with errorRate := 1 }

/-- Every call goes well after the given latency. -/
def fixed (latency : Span) : MockEndpoint := { instant with baseLatency := latency.toSeconds }

variable {σ : Type} [WordSource σ]

/-- The delay of a call; a word is drawn only if there is jitter. -/
def delay (e : MockEndpoint) : StateM σ Span := do
  if e.jitter == 0 then return Span.ofSeconds e.baseLatency
  else
    let u ← drawUnit
    return Span.ofSeconds (e.baseLatency + (u * (e.jitter * 2) - e.jitter))

/-- How a call ends: below the rate of timeouts it times out, below the sum of the rates it fails,
else it goes well. -/
def outcomeAt (e : MockEndpoint) (r : Float32) (served : Span) : Reply :=
  if r < e.timeoutRate then .error (EndpointError.timeout "mock request timed out")
  else if r < e.timeoutRate + e.errorRate then .error (EndpointError.failure "mock request failed")
  else .ok ⟨some served⟩

/-- How a call ends; a word is drawn only if one of the rates is positive. -/
def outcome (e : MockEndpoint) (served : Span) : StateM σ Reply := do
  if e.timeoutRate ≤ 0 && e.errorRate ≤ 0 then return .ok ⟨some served⟩
  else return e.outcomeAt (unit32OfWord (← drawWord)) served

/-- The itinerary of a call: its delay, and for a timeout the time until it is reported. -/
def answer (e : MockEndpoint) : StateM σ Itinerary := do
  let delay ← e.delay
  let reply ← e.outcome delay
  let holds :=
    match reply with
    | .error err => if err.isTimeout then [delay, e.timeout] else [delay]
    | .ok _ => [delay]
  return ⟨[⟨none, holds⟩], some reply⟩

end MockEndpoint

end ClosedLoop
