import ClosedLoop.Fault
import ClosedLoop.Stats.Histogram
import ClosedLoop.Stats.Record

/-!
# Statistics windows

* `Window` — the counters of the time since the last cut, `Window.add` one more record.
* `Snapshot` — what a window shows when it is cut, `Window.close` the cut.
-/

namespace ClosedLoop

/-- The latencies of a window in short. -/
structure LatencySummary where
  mean : Span
  p50 : Span
  p90 : Span
  p99 : Span
  max : Span
  deriving DecidableEq

/-- A window that was cut. -/
structure Snapshot where
  client : ClientId
  clientName : String
  start : Span
  stop : Span
  tally : Tally
  request : Float
  response : Float
  latency : LatencySummary

namespace Snapshot

/-- The data moved in the window. -/
def transfer (s : Snapshot) : Float := s.request + s.response

/-- The length of the window. -/
def length (s : Snapshot) : Span := s.stop.since s.start

/-- Requests per second, zero for a window without length. -/
def throughput (s : Snapshot) : Float :=
  let seconds := s.length.toSeconds
  if seconds == 0 then 0 else Binary.ofWhole s.tally.requests / seconds

end Snapshot

/-- The counters since the last cut. -/
structure Window where
  start : Span
  tally : Tally
  request : Float
  response : Float
  latencySum : Span
  latencyMax : Span
  latencies : Histogram

namespace Window

/-- A window that starts now. -/
def openAt (start : Span) : Window :=
  ⟨start, Tally.zero, 0, 0, Span.zero, Span.zero, Histogram.empty⟩

/-- Has the window seen no record? -/
def isEmpty (w : Window) : Bool := w.tally.requests == 0

/-- The window with a record counted, before its latency is looked at. -/
def countRecord (w : Window) (r : Record) : Window :=
  { w with
    tally := w.tally.count r.outcome
    request := w.request + r.request
    response := w.response + r.response }

/-- The window with a latency taken into the sum `sum`, the maximum and the histogram. -/
def addLatency (w : Window) (sum latency : Span) : Window :=
  { w with
    latencySum := sum
    latencyMax := max w.latencyMax latency
    latencies := w.latencies.add latency }

/-- One more record. If the sum of the latencies leaves the range of spans, the record stays
counted without its latency. -/
def add (w : Window) (r : Record) : Window × Except Fault Unit :=
  let counted := w.countRecord r
  match w.latencySum.add? r.latency with
  | some sum => (counted.addLatency sum r.latency, .ok ())
  | none => (counted, .error .spanOverflow)

/-- The latency that answers a percentile, never above the maximum. -/
def percentile (w : Window) (percent : Nat) : Span :=
  min (Span.ofMicros (w.latencies.percentile percent)) w.latencyMax

/-- The pattern of the mean latency in floating-point seconds. -/
def meanBits (w : Window) : Nat :=
  Binary.double.quotient w.latencySum.secondsBits (Binary.double.nearest w.tally.requests 1)

/-- The snapshot of a window that ends now, with its mean latency given. -/
def shownWith (w : Window) (client : ClientId) (clientName : String) (now mean : Span) :
    Snapshot where
  client
  clientName
  start := w.start
  stop := max now w.start
  tally := w.tally
  request := w.request
  response := w.response
  latency := {
    mean
    p50 := w.percentile 50
    p90 := w.percentile 90
    p99 := w.percentile 99
    max := w.latencyMax }

/-- The snapshot of a window that ends now. -/
def close (w : Window) (client : ClientId) (clientName : String) (now : Span) :
    Except Fault Snapshot :=
  (Span.ofBitsOrFault w.meanBits).map (w.shownWith client clientName now)

end Window

end ClosedLoop
