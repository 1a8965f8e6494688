import ClosedLoop.Json.Text
import ClosedLoop.Report.Basic

/-!
# Reports as JSON lines

Every snapshot and the end of a run are one JSON object on one line, with the members in ascending
order of their names. A count of milliseconds beyond 64 bits is a fault.

* `Snapshot.jsonLine` — the line of a snapshot.
* `RunReport.jsonLine` — the line at the end.
-/

namespace ClosedLoop

open Json (Value)

/-- The completed milliseconds of a span as a 64-bit number. -/
def Span.millisValue (s : Span) : Except Fault Value :=
  if s.wholeMillis < UInt64.size then .ok (.ofNat s.wholeMillis) else .error .millisecondCount

/-- The members of a tally. -/
def Tally.members (t : Tally) : Json.Members :=
  [("requests", .ofNat t.requests), ("successes", .ofNat t.successes),
    ("failures", .ofNat t.failures), ("timeouts", .ofNat t.timeouts)]

/-- The latencies of a snapshot in milliseconds. -/
def LatencySummary.toJson (l : LatencySummary) : Value :=
  .ofMembers
    [("mean", .ofFloat l.mean.toMillis), ("p50", .ofFloat l.p50.toMillis),
      ("p90", .ofFloat l.p90.toMillis), ("p99", .ofFloat l.p99.toMillis),
      ("max", .ofFloat l.max.toMillis)]

/-- A snapshot as an object. -/
def Snapshot.toJson (s : Snapshot) : Except Fault Value := do
  let start ← s.start.millisValue
  let stop ← s.stop.millisValue
  return .ofMembers
    ([("type", .text "snapshot"), ("client_id", .ofNat s.client.toNat),
      ("client_name", .text s.clientName), ("window_start_ms", start), ("window_end_ms", stop),
      ("rps", .ofFloat s.throughput), ("request_mb", .ofFloat s.request),
      ("response_mb", .ofFloat s.response), ("latency_ms", s.latency.toJson)] ++
      s.tally.members)

/-- The totals of a client as an object. -/
def Totals.toJson (client : ClientId) (t : Totals) : Value :=
  .ofMembers
    ([("client_id", .ofNat client.toNat), ("transfer_mb", .ofFloat t.transfer),
      ("max_latency_ms", .ofFloat t.maxLatency.toMillis), ("windows", .ofNat t.windows)] ++
      t.tally.members)

/-- The end of a run as an object. -/
def RunReport.toJson (r : RunReport) : Except Fault Value := do
  let elapsed ← r.elapsed.millisValue
  return .ofMembers
    [("type", .text "final"), ("elapsed_ms", elapsed), ("clean_shutdown", .bool r.cleanShutdown),
      ("clients", .array (r.totals.map fun (client, t) => t.toJson client))]

/-- The line of a snapshot. -/
def Snapshot.jsonLine (s : Snapshot) : Except Fault String := s.toJson.map Json.compact

/-- The line at the end. -/
def RunReport.jsonLine (r : RunReport) : Except Fault String := r.toJson.map Json.compact

end ClosedLoop
