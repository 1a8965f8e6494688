import ClosedLoop.Decimal.Text
import ClosedLoop.Report.Basic

/-!
# Reports for people

One line for every snapshot, one line per client at the end and a last line for the run.

* `Snapshot.humanLine` — the line of a snapshot.
* `RunReport.humanLines` — the lines at the end.
-/

namespace ClosedLoop

open Decimal (fixed)

/-- Milliseconds with two places. -/
def millisText (s : Span) : String := fixed 2 s.toMillis

/-- The counters of failed calls in a line. -/
def Tally.humanText (t : Tally) : String :=
  s!"ok={t.successes} fail={t.failures} timeout={t.timeouts}"

/-- The line of a snapshot. -/
def Snapshot.humanLine (s : Snapshot) : String :=
  let t := fixed 1 s.stop.toSeconds
  let window := fixed 2 s.length.toSeconds
  let rps := fixed 1 s.throughput
  let mb := fixed 3 s.transfer
  let mean := millisText s.latency.mean
  let p50 := millisText s.latency.p50
  let p99 := millisText s.latency.p99
  let longest := millisText s.latency.max
  s!"t={t}s client={s.client.text} ({s.clientName}) window={window}s " ++
  s!"reqs={s.tally.requests} rps={rps} {s.tally.humanText} mb={mb} " ++
  s!"mean={mean}ms p50={p50}ms p99={p99}ms max={longest}ms"

/-- The line of a client at the end. -/
def Totals.humanLine (client : ClientId) (t : Totals) : String :=
  let mb := fixed 3 t.transfer
  let longest := millisText t.maxLatency
  s!"client={client.text} total={t.tally.requests} {t.tally.humanText} mb={mb} " ++
  s!"max={longest}ms windows={t.windows}"

/-- The lines at the end, after `shown` snapshots were shown. -/
def RunReport.humanLines (shown : Nat) (r : RunReport) : List String :=
  let elapsed := fixed 2 r.elapsed.toSeconds
  (r.totals.map fun (client, t) => t.humanLine client) ++
    [s!"done elapsed={elapsed}s snapshots={shown} clean_shutdown={r.cleanShutdown}"]

end ClosedLoop
