import ClosedLoop.Stats.Ledger

/-!
# Run reports

* `RunReport` — what is known when a run is over.
* `ReportFormat` — the ways in which snapshots and the end of a run are shown.
-/

namespace ClosedLoop

/-- What is known when a run is over. -/
structure RunReport where
  elapsed : Span
  /-- Every window that was cut, in the order in which the cuts were reported. -/
  snapshots : List Snapshot
  totals : List (ClientId × Totals)
  cleanShutdown : Bool

/-- The ways in which a run is shown. -/
inductive ReportFormat where
  | human
  | jsonLines
  deriving DecidableEq, Repr

end ClosedLoop
