import ClosedLoop.Decimal.Reading
import ClosedLoop.Json.Value

/-!
# Numbers in JSON text

A whole number that fits 64 bits is read exactly. Any other number is read with two roundings: the
leading digits, as many as stay below `2 ^ 64`, become a double, and that is multiplied with or
divided by a power of ten. Up to fifteen digits with powers up to `10 ^ 22` this is the nearest
double; beyond that it may be a neighbour.

* `Kept` — the digits that are kept, with the power of ten that belongs to them.
* `scaledBits?` — a double times a power of ten, rounded.
* `number?` — the number at the front of a text.
-/

namespace ClosedLoop.Json

/-! ### Syntax -/

/-- The digits before the point: a zero alone or digits that start with another one. -/
def wholePart? (cs : List Char) : Option (List Char × List Char) :=
  let digits := cs.takeWhile Char.isDigit
  let rest := cs.dropWhile Char.isDigit
  match digits with
  | [] => none
  | '0' :: _ :: _ => none
  | _ => some (digits, rest)

/-- The digits after the point, at least one if there is a point. -/
def fractionPart? : List Char → Option (Option (List Char) × List Char)
  | '.' :: rest =>
    let digits := rest.takeWhile Char.isDigit
    if digits.isEmpty then none else some (some digits, rest.dropWhile Char.isDigit)
  | rest => some (none, rest)

/-- The exponent, with at least one digit if there is an exponent mark. -/
def exponentPart? : List Char → Option (Option Int × List Char)
  | mark :: rest =>
    if mark = 'e' ∨ mark = 'E' then
      let (isNegative, body) := Decimal.takeSign rest
      let digits := body.takeWhile Char.isDigit
      if digits.isEmpty then none
      else
        let size : Int := Decimal.valueOf digits
        some (some (if isNegative then -size else size), body.dropWhile Char.isDigit)
    else some (none, mark :: rest)
  | [] => some (none, [])

/-! ### Values -/

/-- The digits that are kept of a literal: they stand for `significand * 10 ^ exponent`. -/
structure Kept where
  significand : Nat
  exponent : Int

namespace Kept

/-- Before the first digit. -/
def nothing : Kept := ⟨0, 0⟩

/-- Takes digits before the point. From the first one that would lead to `2 ^ 64` or beyond, they
only count. -/
def takeWhole (k : Kept) : List Char → Kept
  | [] => k
  | c :: rest =>
    let next := 10 * k.significand + (c.toNat - '0'.toNat)
    if next < UInt64.size then takeWhole { k with significand := next } rest
    else { k with exponent := k.exponent + (rest.length + 1) }

/-- Takes digits after the point. From the first one that would lead to `2 ^ 64` or beyond, they
are passed over. -/
def takeFraction (k : Kept) : List Char → Kept
  | [] => k
  | c :: rest =>
    let next := 10 * k.significand + (c.toNat - '0'.toNat)
    if next < UInt64.size then takeFraction ⟨next, k.exponent - 1⟩ rest else k

end Kept

/-- The pattern of the double nearest to a whole number. -/
def wholeBits (n : Nat) : Nat := Binary.double.nearest n 1

/-- The pattern of the double nearest to a power of ten, which is finite up to `10 ^ 308`. -/
def powerBits (n : Nat) : Nat := wholeBits (Decimal.powerOfTen n)

/-- A double divided by a power of ten, in two steps beyond `10 ^ 308`. Two full steps leave nothing
of any significand. -/
def dividedBits (bits n : Nat) : Nat :=
  if n ≤ 308 then Binary.double.quotient bits (powerBits n)
  else if n ≤ 616 then
    Binary.double.quotient (Binary.double.quotient bits (powerBits 308)) (powerBits (n - 308))
  else 0

/-- A double multiplied with a power of ten, unless the product is too large for a double. -/
def multipliedBits? (bits n : Nat) : Option Nat :=
  if bits = 0 then some 0
  else if n ≤ 308 then
    let product := Binary.double.product bits (powerBits n)
    if product < Binary.double.infinityBits then some product else none
  else none

/-- A double times a power of ten, unless that is too large for a double. -/
def scaledBits? (bits : Nat) : Int → Option Nat
  | .ofNat n => multipliedBits? bits n
  | .negSucc n => some (dividedBits bits (n + 1))

/-- The double that a literal stands for, unless it is too large for one. -/
def doubleOf? (isNegative : Bool) (whole fraction : List Char) (exponent : Int) :
    Option Float :=
  let kept := (Kept.nothing.takeWhole whole).takeFraction fraction
  (scaledBits? (wholeBits kept.significand) (kept.exponent + exponent)).map fun bits =>
    Float.ofBits (UInt64.ofNat (if isNegative then Binary.double.signBit + bits else bits))

/-- The number that a literal stands for: whole if it has neither point nor exponent, fits 64 bits
and is no negative zero. -/
def numberOf? (isNegative : Bool) (whole : List Char) (fraction : Option (List Char))
    (exponent : Option Int) : Option Number :=
  let asDouble :=
    (doubleOf? isNegative whole (fraction.getD []) (exponent.getD 0)).map Number.double
  if fraction.isSome || exponent.isSome then asDouble
  else
    let n := Decimal.valueOf whole
    if isNegative then
      if 0 < n ∧ n ≤ UInt64.size / 2 then some (.whole (-(n : Int))) else asDouble
    else if n < UInt64.size then some (.whole n) else asDouble

/-- The number at the front of a text, and what follows it. -/
def number? (cs : List Char) : Option (Number × List Char) := do
  let (isNegative, body) :=
    match cs with
    | '-' :: rest => (true, rest)
    | rest => (false, rest)
  let (whole, afterWhole) ← wholePart? body
  let (fraction, afterFraction) ← fractionPart? afterWhole
  let (exponent, rest) ← exponentPart? afterFraction
  let n ← numberOf? isNegative whole fraction exponent
  return (n, rest)

example : (doubleOf? false ['1'] ['5'] (-3)).map Float.toBits = some (0.0015 : Float).toBits := by
  decide +kernel

example : (doubleOf? false ['1'] [] 309).isNone := by decide +kernel

end ClosedLoop.Json
