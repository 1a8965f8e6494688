import ClosedLoop.Clock
import ClosedLoop.Stats.Ledger

/-!
# Monitors

Every client has a monitor that cuts its statistics window on a fixed grid: the `k`-th tick is due
`k` periods after the start, and fires at the first whole millisecond from then on. The snapshot of
a cut is sent on before the next tick is awaited.

* `Monitor`, `MonitorPhase` — a monitor and what it does at present.
* `Monitor.tickAt` — when a tick fires.
* `Monitor.start` — the monitor of a profile; with a period beyond the clock it never ticks.
-/

namespace ClosedLoop

/-- What a monitor does at present. -/
inductive MonitorPhase where
  /-- It awaits a tick. -/
  | waiting (tick : Nat)
  /-- It has a snapshot to send before it awaits a tick. -/
  | sending (tick : Nat) (snapshot : Snapshot)
  /-- It awaits the end of the run only. -/
  | parked
  /-- It has ended. -/
  | stopped

/-- The monitor of a client. -/
structure Monitor where
  client : ClientId
  period : Span
  phase : MonitorPhase

/-- What a monitor that never ticks logs. -/
def monitorWarning : String := "monitor period out of range: window cut at flush only"

namespace Monitor

/-- When a tick fires. -/
def tickAt (period : Span) (tick : Nat) : Option Nat := Clock.fire (tick * period.nanos)

/-- Does a monitor with this period ever tick? -/
def ticks (period : Span) : Bool := !period.isZero && period.nanos < Clock.range

/-- The monitor of a profile at the start of a run. -/
def start (p : Profile) : Monitor :=
  ⟨p.id, p.monitorPeriod, if ticks p.monitorPeriod then .waiting 1 else .parked⟩

/-- When the next tick fires, if one is awaited. -/
def wake? (m : Monitor) : Option Nat :=
  match m.phase with
  | .waiting tick => tickAt m.period tick
  | _ => none

/-- Has the awaited tick fired? -/
def isDue (m : Monitor) (now : Nat) : Bool :=
  match m.wake? with
  | some t => t ≤ now
  | none => false

/-- Is there a snapshot to send? -/
def isSending (m : Monitor) : Bool :=
  match m.phase with
  | .sending _ _ => true
  | _ => false

/-- Has the monitor ended? -/
def isStopped (m : Monitor) : Bool :=
  match m.phase with
  | .stopped => true
  | _ => false

/-- Ends the monitor where it can be told to end: not while it has a snapshot to send. -/
def quit? (m : Monitor) : Option Monitor :=
  match m.phase with
  | .waiting _ => some { m with phase := .stopped }
  | .parked => some { m with phase := .stopped }
  | _ => none

end Monitor

end ClosedLoop
