import ClosedLoop.Report.Lines

namespace ClosedLoop

/-!
# What can be printed

A line is printed unless it has to count more milliseconds than 64 bits can. The times of a run
that does not last for ages can all be counted.

* `Snapshot.EndsBy` — a snapshot that begins and ends within a bound;
* `ReportFormat.lines_ok` — all lines of snapshots and a report within the bound can be printed.
-/

/-- The first time in nanoseconds that has too many milliseconds to be printed. -/
def printable : Nat := UInt64.size * 1000000

/-- Both ends of the snapshot lie within the bound. -/
def Snapshot.EndsBy (last : Nat) (s : Snapshot) : Prop :=
  s.start.nanos ≤ last ∧ s.stop.nanos ≤ last

variable {last : Nat}

/-- A sequence of two steps succeeds if the first does and the second does whatever comes of it. -/
theorem bind_ok {ε α β : Type} {x : Except ε α} {f : α → Except ε β} (hx : ∃ a, x = .ok a)
    (hf : ∀ a, ∃ b, f a = .ok b) : ∃ b, (x >>= f) = .ok b := by
  obtain ⟨a, rfl⟩ := hx
  exact hf a

/-- A time within the bound has a number of milliseconds that can be counted. -/
theorem Span.wholeMillis_lt {s : Span} (h : s.nanos ≤ last) (hlast : last < printable) :
    s.wholeMillis < UInt64.size := by
  unfold printable at hlast
  rw [wholeMillis]
  omega

/-- A time that can be printed is counted in whole milliseconds. -/
theorem Span.millisValue_ok {s : Span} (h : s.nanos ≤ last) (hlast : last < printable) :
    ∃ value, s.millisValue = .ok value :=
  ⟨_, by rw [millisValue, if_pos (wholeMillis_lt h hlast)]⟩

/-- A snapshot whose end can be printed has a line. -/
theorem Snapshot.jsonLine_ok {s : Snapshot} (h : s.EndsBy last) (hlast : last < printable) :
    ∃ line, s.jsonLine = .ok line := by
  have hvalue : ∃ value, s.toJson = .ok value :=
    bind_ok (Span.millisValue_ok h.1 hlast) fun _ =>
      bind_ok (Span.millisValue_ok h.2 hlast) fun _ => ⟨_, rfl⟩
  obtain ⟨value, hvalue⟩ := hvalue
  exact ⟨Json.compact value, by rw [jsonLine, hvalue]; rfl⟩

/-- A report whose end can be printed has a line. -/
theorem RunReport.jsonLine_ok {r : RunReport} (h : r.elapsed.nanos ≤ last)
    (hlast : last < printable) : ∃ line, r.jsonLine = .ok line := by
  have hvalue : ∃ value, r.toJson = .ok value :=
    bind_ok (Span.millisValue_ok h hlast) fun _ => ⟨_, rfl⟩
  obtain ⟨value, hvalue⟩ := hvalue
  exact ⟨Json.compact value, by rw [jsonLine, hvalue]; rfl⟩

namespace ReportFormat

/-- A snapshot whose end can be printed has a line in every format. -/
theorem snapshotLine_ok (format : ReportFormat) {s : Snapshot} (h : s.EndsBy last)
    (hlast : last < printable) : ∃ line, format.snapshotLine s = .ok line := by
  cases format with
  | human => exact ⟨s.humanLine, rfl⟩
  | jsonLines => exact Snapshot.jsonLine_ok h hlast

/-- A report whose end can be printed has its lines at the end of a run. -/
theorem finalLines_ok (format : ReportFormat) (shown : Nat) {r : RunReport}
    (h : r.elapsed.nanos ≤ last) (hlast : last < printable) :
    ∃ lines, format.finalLines shown r = .ok lines := by
  cases format with
  | human => exact ⟨r.humanLines shown, rfl⟩
  | jsonLines =>
    obtain ⟨line, hline⟩ := RunReport.jsonLine_ok h hlast
    exact ⟨[line], by rw [finalLines, hline]; rfl⟩

/-- All lines of a run whose times can be counted are printed. -/
theorem lines_ok (format : ReportFormat) {shown : List Snapshot} {r : RunReport}
    (hshown : ∀ s ∈ shown, s.EndsBy last) (hend : r.elapsed.nanos ≤ last)
    (hlast : last < printable) : ∃ lines, format.lines shown (some r) = .ok lines := by
  have hsnapshots : ∃ lines, shown.mapM format.snapshotLine = .ok lines := by
    induction shown with
    | nil => exact ⟨[], rfl⟩
    | cons s rest ih =>
      obtain ⟨hs, hrest⟩ := List.forall_mem_cons.mp hshown
      rw [List.mapM_cons]
      exact bind_ok (format.snapshotLine_ok hs hlast) fun _ => bind_ok (ih hrest) fun _ => ⟨_, rfl⟩
  exact bind_ok hsnapshots fun _ =>
    bind_ok (format.finalLines_ok shown.length hend hlast) fun _ => ⟨_, rfl⟩

end ReportFormat

end ClosedLoop
