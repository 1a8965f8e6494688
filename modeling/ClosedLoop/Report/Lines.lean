import ClosedLoop.Report.Human
import ClosedLoop.Report.JsonLines

/-!
# The printed lines of a run

* `ReportFormat.snapshotLine` — the line of a snapshot in a format.
* `ReportFormat.finalLines` — the lines at the end in a format.
* `ReportFormat.lines` — all lines: the snapshots in order, then the end if it was reached.
-/

namespace ClosedLoop.ReportFormat

/-- The line of a snapshot. -/
def snapshotLine : ReportFormat → Snapshot → Except Fault String
  | human, s => .ok s.humanLine
  | jsonLines, s => s.jsonLine

/-- The lines at the end, after `shown` snapshots were shown. -/
def finalLines : ReportFormat → Nat → RunReport → Except Fault (List String)
  | human, shown, r => .ok (r.humanLines shown)
  | jsonLines, _, r => r.jsonLine.map fun line => [line]

/-- All lines: the snapshots in order, then the end if it was reached. -/
def lines (format : ReportFormat) (snapshots : List Snapshot) (final : Option RunReport) :
    Except Fault (List String) := do
  let shown ← snapshots.mapM format.snapshotLine
  match final with
  | none => return shown
  | some r => return shown ++ (← format.finalLines snapshots.length r)

end ClosedLoop.ReportFormat
