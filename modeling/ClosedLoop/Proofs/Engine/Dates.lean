import ClosedLoop.Proofs.Engine.Delivery
import ClosedLoop.Proofs.Engine.Simulated
import ClosedLoop.Proofs.Report.Lines

namespace ClosedLoop

/-!
# The times that a run shows

No time that a run shows lies after the instant that its clock has come to, and nothing fails on
the way.

* `Window.BeginsBy` — a window that was opened within a bound;
* `Engine.Dated` — nothing has failed, and every time that the run shows is within a bound;
* `Engine.Steps.dated`, `Engine.Proceeds.dated`, `Engine.run?_dated` — a run stays so while its
  clock is within the bound.
-/

variable {last : Nat}

/-! ### Windows and their snapshots -/

/-- The window was opened within the bound. -/
def Window.BeginsBy (last : Nat) (w : Window) : Prop := w.start.nanos ≤ last

/-- A record does not move the start of a window. -/
theorem Window.BeginsBy.add {w : Window} (h : w.BeginsBy last) (r : Record) :
    (w.add r).1.BeginsBy last := by
  unfold Window.add
  cases w.latencySum.add? r.latency <;> exact h

namespace Ledger

variable {l : Ledger} {now : Span}

/-- What ends at the present, and is the open window of a client, ends within the bound. -/
private theorem endsBy_of_stamps (h : l.Windows (Window.BeginsBy last)) (hnow : now.nanos ≤ last)
    {c : ClientId} {s : Snapshot} (hs : l.startOf? c = some s.start ∧ s.stop = max now s.start) :
    s.EndsBy last := by
  obtain ⟨hbegan, hstop⟩ := hs
  obtain ⟨a, hfound, hstart⟩ := Option.map_eq_some_iff.mp hbegan
  have hbegins : s.start.nanos ≤ last := hstart ▸ h c a hfound
  refine ⟨hbegins, ?_⟩
  rw [hstop, Span.nanos_max]
  exact Nat.max_le.mpr ⟨hnow, hbegins⟩

/-- A snapshot that is cut ends by the present. -/
theorem endsBy_of_take (h : l.Windows (Window.BeginsBy last)) (hnow : now.nanos ≤ last)
    {c : ClientId} {s : Snapshot} (hs : (l.take now c).2 = .ok (some s)) : s.EndsBy last :=
  endsBy_of_stamps h hnow (stamps_of_take hs)

/-- Snapshots that are flushed end by the present. -/
theorem endsBy_of_flush (asc : l.accounts.Ascending) (h : l.Windows (Window.BeginsBy last))
    (hnow : now.nanos ≤ last) {shown : List Snapshot} (hok : (l.flush now).2 = .ok shown) :
    ∀ s ∈ shown, s.EndsBy last :=
  fun _ hs => endsBy_of_stamps h hnow (stamps_of_flush asc hok hs)

end Ledger

/-! ### The engine -/

/-- The run has not failed, and its end, if there is one, lies within the bound. -/
def Status.EndsBy (last : Nat) : Status → Prop
  | .flushing _ elapsed _ | .finished _ elapsed => elapsed ≤ last
  | .failed _ => False
  | .running | .draining _ _ => True

namespace Engine

variable {e e' : Engine} {a : Action} {new : List Event}

/-- Every snapshot has a property, wherever it is on its way to the board. -/
structure Shows (P : Snapshot → Prop) (e : Engine) : Prop where
  board : ∀ s ∈ e.board, P s
  channel : ∀ s ∈ e.channel, P s
  held : ∀ m ∈ e.monitors, ∀ s ∈ m.held, P s
  left : ∀ s ∈ e.status.left, P s

/-- A monitor that shows what it may is changed. -/
theorem Shows.setMonitor {P : Snapshot → Prop} (h : e.Shows P) {m : Nat} {next : Monitor}
    (hnext : ∀ s ∈ next.held, P s) : (e.setMonitor m next).Shows P :=
  { h with
    held := fun x hx => by
      rcases List.mem_or_eq_of_mem_set hx with hold | rfl
      · exact h.held x hold
      · exact hnext }

/-- A snapshot that may be shown goes into the channel. -/
theorem Shows.push {P : Snapshot → Prop} (h : e.Shows P) {s : Snapshot} (hs : P s) :
    (e.push s).Shows P :=
  { h with
    channel := fun t ht => by
      rcases List.mem_append.mp ht with hold | hnew
      · exact h.channel t hold
      · exact List.mem_singleton.mp hnew ▸ hs }

/-- What holds of all snapshots holds of those that are shown. -/
theorem Shows.mono {P Q : Snapshot → Prop} (h : e.Shows P) (hPQ : ∀ s, P s → Q s) : e.Shows Q where
  board s hs := hPQ s (h.board s hs)
  channel s hs := hPQ s (h.channel s hs)
  held m hm s hs := hPQ s (h.held m hm s hs)
  left s hs := hPQ s (h.left s hs)

/-- There are no snapshots at first. -/
theorem shows_start {P : Snapshot → Prop} (config : EngineConfig) (profiles : List Profile) :
    (start config profiles).Shows P where
  board _ hs := absurd hs List.not_mem_nil
  channel _ hs := absurd hs List.not_mem_nil
  held m hm s hs := by
    obtain ⟨p, -, rfl⟩ := List.mem_map.mp hm
    rw [held_start] at hs
    cases hs
  left _ hs := absurd hs List.not_mem_nil

/-- A step passes snapshots on, and adds those that it cuts. -/
theorem Steps.shows {P : Snapshot → Prop} (h : Steps e a e' new) (hshows : e.Shows P)
    (hnew : ∀ s ∈ (journalOf new).shown, P s) : e'.Shows P := by
  have hledger : ∀ ledger, { e with ledger }.Shows P := fun _ => { hshows with }
  have hnothing : ∀ s ∈ ([] : List Snapshot), P s := fun s hs => absurd hs List.not_mem_nil
  cases h with
  -- No snapshot moves, or the window that is cut is empty.
  | issue | reply | record | crash | quit | advance => exact { hshows with }
  | cutNothing | cutFails => exact (hledger _).setMonitor hnothing
  | cut found due waits kept => exact (hledger _).setMonitor hnew
  | @send m tick monitor s room found holds =>
    have hs : P s := by
      refine hshows.held monitor (List.mem_of_getElem? found) s ?_
      rw [Monitor.held_sending holds]
      exact List.mem_singleton_self s
    exact (hshows.push hs).setMonitor hnothing
  | leave told found turn =>
    obtain ⟨-, hnone, -⟩ := Monitor.held_of_quit? turn
    exact hshows.setMonitor (hnone ▸ hnothing)
  -- The snapshot at the front of the channel comes to the end of the board.
  | @receive s rest front =>
    obtain ⟨hs, hrest⟩ := List.forall_mem_cons.mp (front ▸ hshows.channel)
    have hboard : ∀ t ∈ e.board ++ [s], P t := by
      intro t ht
      rcases List.mem_append.mp ht with hold | hnew
      · exact hshows.board t hold
      · exact List.mem_singleton.mp hnew ▸ hs
    exact { hshows with board := hboard, channel := hrest }
  -- What was left is gone, or there was nothing yet.
  | stop | flushFails | finish => exact { hshows with left := hnothing }
  | flush drains ripe kept =>
    rw [journalOf_singleton] at hnew
    exact { hshows with left := hnew }
  | @sendFlushed clean elapsed s left flushes room =>
    obtain ⟨hs, hrest⟩ := List.forall_mem_cons.mp
      (show ∀ t ∈ s :: left, P t by simpa [flushes, Status.left] using hshows.left)
    exact { hshows.push hs with left := hrest }

/-- Nothing has failed, and no time that the run shows lies after `last`. -/
structure Dated (last : Nat) (e : Engine) : Prop where
  books : ∃ told, e.Books told
  now_le : e.now ≤ last
  opened : e.ledger.Windows (Window.BeginsBy last)
  shown : e.Shows (Snapshot.EndsBy last)
  status : e.status.EndsBy last

/-- A run begins on time. -/
theorem dated_start (config : EngineConfig) (profiles : List Profile) (last : Nat) :
    (start config profiles).Dated last where
  books := ⟨[], books_start config profiles⟩
  now_le := Nat.zero_le _
  opened := Ledger.windows_openFor (Nat.zero_le _) profiles
  shown := shows_start config profiles
  status := trivial

/-- What a step cuts ends at the present. -/
theorem Steps.endsBy (h : Steps e a e' new) (hd : e.Dated last) :
    ∀ s ∈ (journalOf new).shown, s.EndsBy last := by
  obtain ⟨⟨told, hbooks⟩, hnow, hopened, -, -⟩ := hd
  have hreading : e.reading.nanos ≤ last := Nat.le_trans (reading_nanos_le e.now) hnow
  cases h with
  -- Only cuts and the flush make snapshots.
  | cut found due waits kept =>
    exact List.forall_mem_singleton.mpr (Ledger.endsBy_of_take hopened hreading kept)
  | flush drains ripe kept =>
    rw [journalOf_singleton]
    exact Ledger.endsBy_of_flush hbooks.keeps.ascending hopened hreading kept
  | record | crash =>
    rw [journalOf_singleton, Event.entry, Journal.shown_ofRecord]
    exact fun s hs => absurd hs List.not_mem_nil
  | _ => exact fun s hs => absurd hs List.not_mem_nil

/-- A step keeps the times within the bound as long as the clock stays within it. -/
theorem Steps.dated (h : Steps e a e' new) (hlast : e'.now ≤ last) (hd : e.Dated last) :
    e'.Dated last := by
  have hshows : e'.Shows (Snapshot.EndsBy last) := h.shows hd.shown (h.endsBy hd)
  obtain ⟨⟨told, hbooks⟩, hnow, hopened, -, hstatus⟩ := hd
  have hreading : e.reading.nanos ≤ last := Nat.le_trans (reading_nanos_le e.now) hnow
  have hbooks' : ∃ told, e'.Books told := ⟨told ++ new, h.books hbooks⟩
  cases h with
  | record | crash =>
    exact ⟨hbooks', hlast, hopened.record fun w hw => hw.add _, hshows, hstatus⟩
  | cutNothing | cut | cutFails =>
    exact ⟨hbooks', hlast, hopened.take hreading _, hshows, hstatus⟩
  | flush drains ripe kept =>
    exact ⟨hbooks', hlast, Ledger.Windows.flush hreading kept, hshows, hlast⟩
  -- The windows of right books can be flushed.
  | flushFails drains ripe kept =>
    exact absurd kept (hbooks.flush_ne_error _)
  | stop => exact ⟨hbooks', hlast, hopened, hshows, trivial⟩
  | sendFlushed flushes | finish flushes =>
    rw [flushes] at hstatus
    exact ⟨hbooks', hlast, hopened, hshows, hstatus⟩
  | _ => exact ⟨hbooks', hlast, hopened, hshows, hstatus⟩

/-- A run that goes on by itself up to an instant within the bound stays dated. -/
theorem Proceeds.dated {target : Nat} (h : Proceeds target e e') (htarget : target ≤ last)
    (hd : e.Dated last) : e'.Dated last := by
  refine h.keeps (fun {mid next a new} hstep ha hmid => ?_) hd
  refine hstep.dated ?_ hmid
  cases hstep with
  | advance => exact Nat.le_trans (of_decide_eq_true ha) htarget
  | _ => exact hmid.now_le

/-- A run shows no time that has not come yet. -/
theorem run?_dated {config : EngineConfig} {profiles : List Profile} {as : List Action}
    {events : List Event} (h : (start config profiles).run? as = some (e, events)) :
    e.Dated e.now := by
  -- The bound is the last instant of the run from its start on, since the clock does not go back.
  have hall := run?_induction (motive := fun mid _ => mid.now ≤ e.now → mid.Dated e.now) h
    (fun _ => dated_start config profiles e.now) fun hmid hstep hnow =>
      hstep.dated hnow (hmid (Nat.le_trans hstep.now_le hnow))
  exact hall (Nat.le_refl _)

/-- A run that is over and dated has a report that can be printed with all its snapshots. -/
theorem Dated.lines_ok (h : e.Dated last) (hlast : last < printable) {clean : Bool} {elapsed : Nat}
    (hover : e.status = .finished clean elapsed) (format : ReportFormat) :
    ∃ lines, format.lines e.board (some (e.reportAt clean elapsed)) = .ok lines := by
  have hend : elapsed ≤ last := by
    have hstatus := h.status
    rw [hover] at hstatus
    exact hstatus
  exact format.lines_ok (fun s hs => h.shown.board s hs)
    (Nat.le_trans (reading_nanos_le elapsed) hend) hlast

end Engine

end ClosedLoop
