import ClosedLoop.Span

/-!
# Faults

A fault ends an operation in the middle, after it may have changed its state. It is no error of the
user's input: it marks a number that has left the range of its type, or a size for which there is
no room.

* `Fault.message` — the wording.
* `mostPlaces`, `checkPlaces` — how many places a pool or a channel may have.
-/

namespace ClosedLoop

/-- The most places that a pool or a channel can count. -/
def mostPlaces : Nat := UInt64.size / 8 - 1

/-- A number that left the range of its type, or a size for which there is no room. -/
inductive Fault where
  /-- A sum of spans beyond the longest span. -/
  | spanOverflow
  /-- An instant after all that a clock can show. -/
  | tooLate
  /-- An instant before all that a clock can show. -/
  | tooEarly
  /-- Seconds that must be a span and are none. -/
  | seconds (cause : SecondsError)
  /-- A count of milliseconds that is no 64-bit number. -/
  | millisecondCount
  /-- A pool or a channel with more places than it can count. -/
  | tooManyPlaces
  /-- More data nodes than the memory has room for. -/
  | tooManyDataNodes
  deriving DecidableEq, Repr

namespace Fault

/-- The wording of a fault. -/
def message : Fault → String
  | .spanOverflow => "overflow when adding durations"
  | .tooLate => "overflow when adding duration to instant"
  | .tooEarly => "overflow when subtracting duration from instant"
  | .seconds .negative => "cannot convert float seconds to Duration: value is negative"
  | .seconds .tooLarge =>
    "cannot convert float seconds to Duration: value is either too big or NaN"
  | .millisecondCount =>
    "called `Result::unwrap()` on an `Err` value: " ++
      "Error(\"number out of range\", line: 0, column: 0)"
  | .tooManyPlaces => s!"a semaphore may not have more than MAX_PERMITS permits ({mostPlaces})"
  | .tooManyDataNodes => "called `Result::unwrap()` on an `Err` value: LayoutError"

end Fault

/-- The pattern of a number of seconds that must be a span. -/
def Span.ofBitsOrFault (bits : Nat) : Except Fault Span :=
  (Span.ofBits? bits).mapError .seconds

/-- Seconds that must be a span. -/
def Span.ofSecondsOrFault (x : Float) : Except Fault Span :=
  (Span.ofSeconds? x).mapError .seconds

/-- The number of places of a pool or a channel must be one that it can count. -/
def checkPlaces (places : Nat) : Except Fault Unit :=
  if places ≤ mostPlaces then .ok () else .error .tooManyPlaces

end ClosedLoop
