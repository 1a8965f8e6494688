import ClosedLoop.Proofs.Engine.Cuts
import ClosedLoop.Proofs.Engine.Dates
import ClosedLoop.Proofs.Profile.Fields
import ClosedLoop.Proofs.Report.JsonLines

namespace ClosedLoop

/-!
# The lines of a run can be read back

A line can be read back if its times can be counted in milliseconds of 64 bits and its counters fit
64 bits. The report of a run is of that kind: its times were shown by the clock of the run, its
counters count events of the run, and its totals are in the order of the clients.

* `Tally.Sound.fits`, `Ledger.Keeps.totals_fit`, `Ledger.Keeps.shown_fit` — counters that agree
  with a journal are bounded by its records;
* `length_records_journalOf_le` — a run has no more records than events;
* `Engine.run?_shows` — a run shows the snapshots of its journal;
* `Engine.run?_lines` — **every line that a run prints as JSON can be read back**.
-/

/-! ### Counters -/

/-- The requests of a sum are the sum of the requests. -/
theorem Tally.requests_sum (ts : List Tally) : ts.sum.requests = (ts.map requests).sum := by
  induction ts with
  | nil => rfl
  | cons t rest ih => rw [List.sum_cons, requests_add, ih, List.map_cons, List.sum_cons]

/-- No counter of a sound tally exceeds its requests. -/
theorem Tally.Sound.fits {t : Tally} (h : t.Sound) (hlt : t.requests < 2 ^ 64) : t.Fits := by
  obtain ⟨hsplit, hle⟩ := h
  constructor <;> omega

/-- How many records a journal knows. -/
def Journal.size (j : Journal) : Nat := j.counted.length + j.lost.length

/-- The part of a client in a journal is not longer than the journal. -/
theorem Journal.size_of_le (j : Journal) (c : ClientId) : (j.of c).size ≤ j.size :=
  Nat.add_le_add (List.length_filter_le _ _) (List.length_filter_le _ _)

namespace Account

variable {a : Account} {j : Journal}

/-- The snapshots of an account count no more requests than its journal knows records. -/
theorem Keeps.sum_requests_le (h : a.Keeps j) :
    (j.shown.map fun s => s.tally.requests).sum ≤ j.size := by
  have hwindow := congrArg Tally.requests h.window
  rw [Tally.requests_add, Tally.requests_add, Tally.requests_sum, List.map_map,
    requests_tallyOf, requests_tallyOf] at hwindow
  exact Nat.le.intro hwindow

/-- Snapshots of an account count no more than was recorded. -/
theorem Keeps.shown_fits (h : a.Keeps j) (hlt : j.size < 2 ^ 64) :
    ∀ s ∈ j.shown, s.tally.Fits := by
  intro s hs
  have hle : s.tally.requests ≤ (j.shown.map fun s => s.tally.requests).sum :=
    List.le_sum_of_mem (List.mem_map.mpr ⟨s, hs, rfl⟩)
  exact (h.shown s hs).tally.fits (Nat.lt_of_le_of_lt (hle.trans h.sum_requests_le) hlt)

/-- Every window that was shown has a request of its own. -/
theorem Keeps.windows_le (h : a.Keeps j) : a.totals.windows ≤ j.size := by
  have hactive : ∀ n ∈ j.shown.map fun s => s.tally.requests, 1 ≤ n :=
    List.forall_mem_map.mpr fun s hs => (h.shown s hs).active
  have hlength := List.length_le_sum_of_one_le _ hactive
  rw [List.length_map] at hlength
  rw [h.windows]
  exact hlength.trans h.sum_requests_le

/-- Totals of an account count no more than was recorded. -/
theorem Keeps.totals_fit (h : a.Keeps j) (hlt : j.size < 2 ^ 64) :
    a.totals.tally.Fits ∧ a.totals.windows < 2 ^ 64 := by
  refine ⟨?_, Nat.lt_of_le_of_lt h.windows_le hlt⟩
  rw [h.totals]
  refine (Tally.sound_of _).fits ?_
  rw [← tallyOf, requests_tallyOf]
  exact Nat.lt_of_le_of_lt (Nat.le_add_right _ _) hlt

end Account

namespace Ledger

variable {l : Ledger} {j : Journal}

/-- Totals of all clients count no more than was recorded. -/
theorem Keeps.totals_fit (h : l.Keeps j) (hlt : j.size < 2 ^ 64) :
    ∀ entry ∈ l.totals, entry.2.tally.Fits ∧ entry.2.windows < 2 ^ 64 := by
  intro entry hentry
  obtain ⟨⟨c, a⟩, hmem, rfl⟩ := List.mem_map.mp hentry
  have hkeeps := h.known c a (h.ascending.lookup_eq hmem)
  exact hkeeps.totals_fit (Nat.lt_of_le_of_lt (j.size_of_le c) hlt)

/-- Snapshots of all clients count no more than was recorded. -/
theorem Keeps.shown_fit (h : l.Keeps j) (hlt : j.size < 2 ^ 64) : ∀ s ∈ j.shown, s.tally.Fits := by
  intro s hs
  obtain ⟨a, hfound⟩ := h.account_of_shown hs
  have hmem : s ∈ (j.of s.client).shown := List.mem_filter.mpr ⟨hs, by simp⟩
  exact (h.known s.client a hfound).shown_fits
    (Nat.lt_of_le_of_lt (j.size_of_le s.client) hlt) s hmem

/-- The totals are listed in ascending order of the clients. -/
theorem Keeps.totals_ascending (h : l.Keeps j) : (l.totals.map Prod.fst).Pairwise (· < ·) := by
  rw [totals, List.map_map]
  exact h.ascending

end Ledger

/-! ### Records and events -/

/-- An event has one entry in the journal at most. -/
theorem Event.size_entry_le (event : Event) : event.entry.size ≤ 1 := by
  cases event with
  | recorded i record result =>
    rcases result with fault | (_ | _) <;> simp [entry, Journal.ofRecord, Journal.size]
  | _ => exact Nat.zero_le _

/-- An event tells of one record at most. -/
theorem size_journalOf_le (events : List Event) : (journalOf events).size ≤ events.length := by
  induction events with
  | nil => exact Nat.le_refl 0
  | cons event rest ih =>
    have hfirst := event.size_entry_le
    simp only [Journal.size, journalOf_cons, Journal.counted_append, Journal.lost_append,
      List.length_append, List.length_cons] at hfirst ih ⊢
    omega

namespace Engine

variable {config : EngineConfig} {profiles : List Profile} {as : List Action} {e : Engine}
  {events : List Event} {report : RunReport}

/-! ### Every run -/

/-- A run shows the snapshots of its journal only. -/
theorem run?_shows (h : (start config profiles).run? as = some (e, events)) :
    e.Shows (· ∈ (journalOf events).shown) := by
  refine run?_induction (motive := fun mid told => mid.Shows (· ∈ (journalOf told).shown)) h
    (shows_start config profiles) fun {mid next a told new} hmid hstep => ?_
  rw [journalOf_append, Journal.shown_append]
  exact hstep.shows (hmid.mono fun s hs => List.mem_append_left _ hs)
    fun s hs => List.mem_append_right _ hs

/-- If each element of a list is related to something, the list is related to a list. -/
theorem exists_forall₂ {α β : Type} {R : α → β → Prop} {l : List α} (h : ∀ a ∈ l, ∃ b, R a b) :
    ∃ bs, List.Forall₂ R l bs := by
  induction l with
  | nil => exact ⟨[], .nil⟩
  | cons a rest ih =>
    obtain ⟨⟨b, hb⟩, hrest⟩ := List.forall_mem_cons.mp h
    obtain ⟨bs, hbs⟩ := ih hrest
    exact ⟨b :: bs, .cons hb hbs⟩

/-- Every snapshot of the report of a run has a line that can be read back. -/
theorem exists_isLine_of_board (h : (start config profiles).run? as = some (e, events))
    (hnow : e.now < printable) (hcount : events.length < 2 ^ 64) :
    ∀ s ∈ e.board, ∃ line, s.jsonLine = .ok line ∧ s.IsLine line := by
  intro s hs
  have hends := (run?_dated h).shown.board s hs
  have hfits := (run?_books h).keeps.shown_fit
    (Nat.lt_of_le_of_lt (size_journalOf_le events) hcount) s ((run?_shows h).board s hs)
  exact Snapshot.exists_isLine (Span.wholeMillis_lt hends.1 hnow)
    (Span.wholeMillis_lt hends.2 hnow) hfits

/-- The report of a run has a line at the end that can be read back. -/
theorem exists_isLine_of_report? (h : (start config profiles).run? as = some (e, events))
    (hnow : e.now < printable) (hcount : events.length < 2 ^ 64)
    (hreport : e.report? = some report) :
    ∃ line, report.jsonLine = .ok line ∧ report.IsLine line := by
  obtain ⟨elapsed, hstatus, hat⟩ := report?_eq_some hreport
  have hkeeps := (run?_books h).keeps
  -- The clock has gone on since the end, or stands still, so the time of the end can be counted.
  have helapsed : elapsed ≤ e.now := by
    have hdated := (run?_dated h).status
    rw [hstatus] at hdated
    exact hdated
  have hend : report.elapsed.nanos ≤ e.now := by
    rw [hat]
    exact (reading_nanos_le elapsed).trans helapsed
  have htotals : report.totals = e.ledger.totals := by rw [hat]; rfl
  obtain ⟨line, hline⟩ := RunReport.jsonLine_ok hend hnow
  refine ⟨line, hline, RunReport.isLine_of_ok ?_ ?_ hline⟩
  · rw [htotals]
    exact hkeeps.totals_ascending
  · rw [htotals]
    exact hkeeps.totals_fit (Nat.lt_of_le_of_lt (size_journalOf_le events) hcount)

/-- **Every line that a run prints as JSON can be read back.** Whatever the profiles and the order
of all actions, a run whose clock shows a time that can be counted in milliseconds, and that had no
more events than can be counted, prints a line for every snapshot of its report, in their order, and
one for its end. -/
theorem run?_lines (h : (start config profiles).run? as = some (e, events))
    (hnow : e.now < printable) (hcount : events.length < 2 ^ 64)
    (hreport : e.report? = some report) :
    ∃ lines last,
      ReportFormat.jsonLines.lines report.snapshots (some report) = .ok (lines ++ [last]) ∧
      List.Forall₂ Snapshot.IsLine report.snapshots lines ∧ report.IsLine last := by
  have hboard : report.snapshots = e.board := by
    obtain ⟨elapsed, -, hat⟩ := report?_eq_some hreport
    rw [hat]
    rfl
  obtain ⟨last, hlast, hisLast⟩ := exists_isLine_of_report? h hnow hcount hreport
  -- The lines of the snapshots exist one by one, and are printed in the order of the board.
  obtain ⟨lines, hlines⟩ : ∃ lines, List.Forall₂ (fun s line => s.jsonLine = .ok line ∧
      s.IsLine line) report.snapshots lines := by
    rw [hboard]
    exact exists_forall₂ (exists_isLine_of_board h hnow hcount)
  have hprinted : report.snapshots.mapM ReportFormat.jsonLines.snapshotLine = .ok lines :=
    mapM_ok_iff.mpr (hlines.imp fun _ _ hs => hs.1)
  refine ⟨lines, last, ?_, hlines.imp fun _ _ hs => hs.2, hisLast⟩
  simp only [ReportFormat.lines, hprinted, ReportFormat.finalLines, hlast, bind, Except.bind,
    Except.map, pure, Except.pure]

end Engine

end ClosedLoop
