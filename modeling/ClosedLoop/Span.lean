import ClosedLoop.Binary

/-!
# Spans of time

A span is a whole number of nanoseconds below `2 ^ 64` seconds. The bound is part of the type, so
every operation says what it does at the bound: `add?` refuses, `addSaturating` stops there.

* `Span.ofSeconds?` — floating-point seconds to a span, exact up to one rounding to nanoseconds.
* `Span.ofSeconds` — the same with zero for what is not a positive finite number and the longest
  span for what is too large.
* `Span.toSeconds` — back to floating-point seconds: whole seconds plus the fraction.
-/

namespace ClosedLoop

/-- A length of time in nanoseconds, shorter than `2 ^ 64` seconds. -/
structure Span where
  nanos : Nat
  nanos_lt : nanos < UInt64.size * 1000000000
  deriving DecidableEq

/-- Why a number of seconds is no span. -/
inductive SecondsError where
  | negative
  | tooLarge
  deriving DecidableEq, Repr

namespace Span

@[ext] theorem ext {a b : Span} (h : a.nanos = b.nanos) : a = b := by
  cases a; cases b; cases h; rfl

instance : LE Span := ⟨fun a b => a.nanos ≤ b.nanos⟩
instance : LT Span := ⟨fun a b => a.nanos < b.nanos⟩
instance (a b : Span) : Decidable (a ≤ b) := inferInstanceAs (Decidable (a.nanos ≤ b.nanos))
instance (a b : Span) : Decidable (a < b) := inferInstanceAs (Decidable (a.nanos < b.nanos))
instance : Max Span := ⟨fun a b => if a.nanos ≤ b.nanos then b else a⟩
instance : Min Span := ⟨fun a b => if a.nanos ≤ b.nanos then a else b⟩

theorem le_def {a b : Span} : a ≤ b ↔ a.nanos ≤ b.nanos := Iff.rfl
theorem lt_def {a b : Span} : a < b ↔ a.nanos < b.nanos := Iff.rfl

@[simp] theorem nanos_max (a b : Span) : (max a b).nanos = max a.nanos b.nanos := by
  show (if a.nanos ≤ b.nanos then b else a).nanos = _
  split <;> omega

@[simp] theorem nanos_min (a b : Span) : (min a b).nanos = min a.nanos b.nanos := by
  show (if a.nanos ≤ b.nanos then a else b).nanos = _
  split <;> omega

/-! ### Building spans -/

/-- The span of that many nanoseconds, if there is one. -/
def ofNanos? (n : Nat) : Option Span :=
  if h : n < UInt64.size * 1000000000 then some ⟨n, h⟩ else none

/-- The span of that many nanoseconds, or the longest one. -/
def clamp (n : Nat) : Span :=
  ⟨min n (UInt64.size * 1000000000 - 1), Nat.lt_of_le_of_lt (Nat.min_le_right _ _) (by decide)⟩

/-- No time at all. -/
def zero : Span := ⟨0, by decide⟩

/-- The longest span, one nanosecond short of `2 ^ 64` seconds. -/
def longest : Span := ⟨UInt64.size * 1000000000 - 1, by decide⟩

/-- That many milliseconds, or the longest span. -/
def ofMillis (n : Nat) : Span := clamp (n * 1000000)

/-- That many microseconds, or the longest span. -/
def ofMicros (n : Nat) : Span := clamp (n * 1000)

instance : Inhabited Span := ⟨zero⟩

@[simp] theorem nanos_zero : zero.nanos = 0 := rfl

@[simp] theorem nanos_clamp (n : Nat) :
    (clamp n).nanos = min n (UInt64.size * 1000000000 - 1) := rfl

theorem clamp_of_lt {n : Nat} (h : n < UInt64.size * 1000000000) : (clamp n).nanos = n := by
  simp only [nanos_clamp]; omega

/-! ### Arithmetic -/

/-- Is this no time at all? -/
def isZero (a : Span) : Bool := a.nanos == 0

/-- The sum, unless it is too long for a span. -/
def add? (a b : Span) : Option Span := ofNanos? (a.nanos + b.nanos)

/-- The sum, or the longest span. -/
def addSaturating (a b : Span) : Span := clamp (a.nanos + b.nanos)

/-- The time from `earlier` to `later`, none if they are the other way round. -/
def since (later earlier : Span) : Span :=
  ⟨later.nanos - earlier.nanos, by have := later.nanos_lt; omega⟩

/-- Completed microseconds. -/
def wholeMicros (a : Span) : Nat := a.nanos / 1000

/-- Completed milliseconds. -/
def wholeMillis (a : Span) : Nat := a.nanos / 1000000

@[simp] theorem nanos_since (later earlier : Span) :
    (later.since earlier).nanos = later.nanos - earlier.nanos := rfl

/-! ### Seconds -/

/-- The pattern of a number of seconds as a span: the exact value in nanoseconds rounded to nearest,
ties to even. -/
def ofBits? (bits : Nat) : Except SecondsError Span :=
  match Binary.double.decode bits with
  | .notANumber => .error .tooLarge
  | .infinite neg => .error (if neg then .negative else .tooLarge)
  | .finite neg units =>
    if neg && units != 0 then .error .negative
    else
      match ofNanos? (roundHalfEven (units * 1000000000) Binary.double.unitsPerOne) with
      | some s => .ok s
      | none => .error .tooLarge

/-- Seconds as a span: the exact value in nanoseconds rounded to nearest, ties to even. -/
def ofSeconds? (x : Float) : Except SecondsError Span := ofBits? x.toBits.toNat

/-- Seconds as a span, leniently: zero for anything but a positive finite number, and the longest
span for a number that is too large. -/
def ofSeconds (x : Float) : Span :=
  match Binary.exact x with
  | .finite false units =>
    clamp (roundHalfEven (units * 1000000000) Binary.double.unitsPerOne)
  | _ => zero

/-- The pattern of a span in seconds: the whole seconds plus the rest divided by a billion, each
step rounded. -/
def secondsBits (a : Span) : Nat :=
  Binary.double.sum (Binary.double.nearest (a.nanos / 1000000000) 1)
    (Binary.double.quotient (Binary.double.nearest (a.nanos % 1000000000) 1)
      (Binary.double.nearest 1000000000 1))

/-- A span in seconds: the whole seconds plus the rest divided by a billion, each step rounded. -/
def toSeconds (a : Span) : Float := Float.ofBits (UInt64.ofNat a.secondsBits)

/-- Completed microseconds, counted in milliseconds. -/
def toMillis (a : Span) : Float :=
  Binary.ofWhole a.wholeMicros / 1e3

example : ofSeconds 0.0015 = ofMicros 1500 := by decide +kernel
example : ofSeconds (-1) = zero := by decide +kernel
example : ofSeconds 1e300 = longest := by decide +kernel
example : (ofMillis 2500).toSeconds.toBits = (2.5 : Float).toBits := by decide +kernel

end Span

end ClosedLoop
