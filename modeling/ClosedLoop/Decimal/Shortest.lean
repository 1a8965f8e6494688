import ClosedLoop.Binary

/-!
# The fewest decimal digits that read back

A binary number is written with as few digits as still identify it: a decimal identifies the number
if it lies among the reals that round to it. For each digit count there is a grid of decimals, and
only the two neighbours of the value on that grid have to be tried.

* `Scientific` — a decimal: digits times a power of ten.
* `Neighbourhood` — the reals that round to a number, as quotients over one denominator.
* `shortest` — the decimal with the fewest digits in the neighbourhood, of two the nearer one.
-/

namespace ClosedLoop.Decimal

open Binary (Format)

/-- A power of ten. -/
def powerOfTen (n : Nat) : Nat := Nat.pow 10 n

/-- The decimal `digits * 10 ^ exponent`. -/
structure Scientific where
  digits : Nat
  exponent : Int
  deriving DecidableEq, Repr

/-- Which of two equally near decimals is taken. -/
inductive Tie where
  | toEven
  | up
  deriving DecidableEq, Repr

/-- How many decimal digits a number has; zero has one. -/
def digitCount (n : Nat) : Nat :=
  (Nat.toDigits 10 n).length

/-- Moves trailing zeros from the digits to the exponent, at most `fuel` of them. -/
def Scientific.trim (s : Scientific) : Nat → Scientific
  | 0 => s
  | fuel + 1 =>
    if s.digits % 10 = 0 then Scientific.trim ⟨s.digits / 10, s.exponent + 1⟩ fuel else s

/-- The reals that round to `value / scale`: those from `low / scale` to `high / scale`, the ends
included exactly if `closed`. -/
structure Neighbourhood where
  low : Nat
  value : Nat
  high : Nat
  scale : Nat
  closed : Bool

/-- The neighbourhood of a positive finite number. The gap below a power of two is half as wide as
the gap above it, unless the number is among the smallest; the ends belong to even patterns. -/
def Neighbourhood.ofUnits (f : Format) (units : Nat) : Neighbourhood :=
  let shift := f.coarseness units
  let significand := units >>> shift
  let step := 1 <<< shift
  let below := if significand = 1 <<< f.fractionBits ∧ 0 < shift then step else 2 * step
  { low := 4 * units - below
    value := 4 * units
    high := 4 * units + 2 * step
    scale := 4 * f.unitsPerOne
    closed := significand % 2 == 0 }

namespace Neighbourhood

/-- The exponent of the first decimal digit of the value. -/
def magnitude (n : Neighbourhood) : Int :=
  if n.scale ≤ n.value then (digitCount (n.value / n.scale) : Int) - 1
  else
    let places := digitCount (n.scale / n.value)
    if n.scale ≤ n.value * powerOfTen (places - 1) then 1 - (places : Int) else -(places : Int)

/-- Does `digits * 10 ^ exponent` round to the value? -/
def contains (n : Neighbourhood) (s : Scientific) : Bool :=
  let point := s.digits * powerOfTen s.exponent.toNat * n.scale
  let grow := powerOfTen (-s.exponent).toNat
  if n.closed then n.low * grow ≤ point && point ≤ n.high * grow
  else n.low * grow < point && point < n.high * grow

/-- The neighbour of the value that is taken on the grid with the given digit count, if any. -/
def onGrid? (n : Neighbourhood) (tie : Tie) (count : Nat) : Option Scientific :=
  let exponent := n.magnitude + 1 - count
  let num := n.value * powerOfTen (-exponent).toNat
  let den := n.scale * powerOfTen exponent.toNat
  let floor : Scientific := ⟨num / den, exponent⟩
  let above : Scientific := ⟨num / den + 1, exponent⟩
  let twice := 2 * (num % den)
  match n.contains floor, n.contains above with
  | false, false => none
  | true, false => some floor
  | false, true => some above
  | true, true =>
    if twice < den then some floor
    else if den < twice then some above
    else if tie = .toEven ∧ floor.digits % 2 = 0 then some floor
    else some above

end Neighbourhood

/-- The decimal with the fewest digits that rounds to a positive finite number. Seventeen digits
always suffice in double precision, and nine in single precision. -/
def shortest (f : Format) (tie : Tie) (units : Nat) : Scientific :=
  let n := Neighbourhood.ofUnits f units
  match (List.range 17).findSome? fun i => n.onGrid? tie (i + 1) with
  | some s => s.trim 17
  | none => ⟨0, 0⟩

end ClosedLoop.Decimal
