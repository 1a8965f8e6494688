import ClosedLoop.Fault

/-!
# The clock

Instants are nanoseconds since the start of a run. A timer fires at a whole millisecond: waiting
for a span ends at the first whole millisecond that is not before its end, and waiting for no time
ends at once. Nobody waits for more than thirty years at a time. A deadline beyond the range of the
clock is never reached.

* `Clock.ceilTick` — the first whole millisecond that is not before an instant.
* `Clock.wake` — when waiting for a span ends.
* `Clock.fire` — when a timer with a deadline fires.
* `Clock.after`, `Clock.before` — the instants that the clock can show around another.
* `Clock.reading`, `Clock.offset` — instants as spans since the start of a run.
-/

namespace ClosedLoop

namespace Clock

/-- The distance between two instants at which timers fire: one millisecond. -/
def tick : Nat := 1000000

/-- The first instant that the clock cannot show. -/
def range : Nat := UInt64.size / 2 * 1000000000

/-- The first whole millisecond that is not before `t`. -/
def ceilTick (t : Nat) : Nat := (t + (tick - 1)) / tick * tick

/-- When a timer with this deadline fires, if the clock reaches the deadline. -/
def fire (deadline : Nat) : Option Nat :=
  if deadline < range then some (ceilTick deadline) else none

/-- The longest time that is waited for at once: thirty years of 365 days. -/
def longestWait : Nat := 946080000 * 1000000000

/-- When waiting for `d` from `now` on ends. -/
def wake (now : Nat) (d : Span) : Nat :=
  if d.isZero then now else ceilTick (now + min d.nanos longestWait)

theorem le_ceilTick (t : Nat) : t ≤ ceilTick t := by
  unfold ceilTick tick; omega

theorem ceilTick_lt (t : Nat) : ceilTick t < t + tick := by
  unfold ceilTick tick; omega

theorem ceilTick_mod_tick (t : Nat) : ceilTick t % tick = 0 :=
  Nat.mul_mod_left _ _

theorem le_wake (now : Nat) (d : Span) : now ≤ wake now d := by
  unfold wake
  split
  · exact Nat.le_refl _
  · exact Nat.le_trans (Nat.le_add_right _ _) (le_ceilTick _)

/-- Waiting never ends early, unless it is for too long. -/
theorem add_nanos_le_wake (now : Nat) {d : Span} (h : d.nanos ≤ longestWait) :
    now + d.nanos ≤ wake now d := by
  unfold wake
  split
  · rename_i hz
    simp only [Span.isZero, beq_iff_eq] at hz
    omega
  · rw [Nat.min_eq_left h]
    exact le_ceilTick _

example : wake 0 (Span.ofMicros 1500) = 2000000 := by decide +kernel
example : wake 5 Span.longest = 946080000001000000 := by decide +kernel

/-- The instant that comes that much later, if the clock can show it. -/
def after (t : Nat) (d : Span) : Except Fault Nat :=
  if t + d.nanos < range then .ok (t + d.nanos) else .error .tooLate

/-- The instant that comes that much earlier; what lies before the start counts as the start, if
the clock can show it at all. -/
def before (t : Nat) (d : Span) : Except Fault Nat :=
  if d.nanos ≤ t + range then .ok (t - d.nanos) else .error .tooEarly

/-- The span that the clock shows at an instant. -/
def reading (t : Nat) : Span := Span.clamp t

/-- The span from the start of a run to an instant of the same clock; none for an instant before
the start. -/
def offset (start instant : Nat) : Span := reading (instant - start)

end Clock

end ClosedLoop
