import ClosedLoop.Decimal.Shortest

/-!
# Reading decimals

A decimal literal is read exactly and rounded once, to the nearest number of the wanted format.

* `Scientific.ofChars?` — the unsigned literals: digits, a point somewhere, an exponent.
* `Scientific.nearestBits` — the pattern nearest to a decimal.
* `readDouble?`, `readSingle?`, `readWhole?` — a whole text as a number.
-/

namespace ClosedLoop.Decimal

open Binary (Format)

/-- The number written by decimal digits. -/
def valueOf (digits : List Char) : Nat :=
  digits.foldl (fun n c => 10 * n + (c.toNat - '0'.toNat)) 0

/-- An optional sign and what follows it; `true` for a minus sign. -/
def takeSign : List Char → Bool × List Char
  | '-' :: rest => (true, rest)
  | '+' :: rest => (false, rest)
  | rest => (false, rest)

/-- The exponent part of a literal: nothing, or `e`, an optional sign and at least one digit. -/
def exponentOfChars? : List Char → Option Int
  | [] => some 0
  | mark :: rest =>
    if mark = 'e' ∨ mark = 'E' then
      let (isNegative, digits) := takeSign rest
      if digits.isEmpty || !digits.all Char.isDigit then none
      else some (if isNegative then -(valueOf digits : Int) else valueOf digits)
    else none

/-- An unsigned literal: digits with an optional point, at least one digit in all, and an optional
exponent. -/
def Scientific.ofChars? (cs : List Char) : Option Scientific :=
  let whole := cs.takeWhile Char.isDigit
  let afterWhole := cs.dropWhile Char.isDigit
  let (fraction, tail) :=
    match afterWhole with
    | '.' :: rest => (rest.takeWhile Char.isDigit, rest.dropWhile Char.isDigit)
    | rest => ([], rest)
  if whole.isEmpty && fraction.isEmpty then none
  else (exponentOfChars? tail).map fun e => ⟨valueOf (whole ++ fraction), e - fraction.length⟩

/-- The pattern of the number nearest to a decimal. A decimal with more than four hundred places
before or after the point is settled without its power of ten. -/
def Scientific.nearestBits (f : Format) (s : Scientific) : Nat :=
  let places := s.exponent + digitCount s.digits
  if s.digits = 0 ∨ places < -400 then 0
  else if 400 < places then f.infinityBits
  else f.nearest (s.digits * powerOfTen s.exponent.toNat) (powerOfTen (-s.exponent).toNat)

/-- A whole text as the pattern of a number: a literal with an optional sign, or the name of an
infinity or of what is not a number in any case. -/
def readBits? (f : Format) (text : String) : Option Nat :=
  let (isNegative, body) := takeSign text.toList
  let signed (bits : Nat) := if isNegative then f.signBit + bits else bits
  let name := String.ofList (body.map Char.toLower)
  if name = "nan" then some (f.infinityBits + (1 <<< (f.fractionBits - 1)))
  else if name = "inf" ∨ name = "infinity" then some (signed f.infinityBits)
  else (Scientific.ofChars? body).map fun s => signed (s.nearestBits f)

/-- A whole text as a double. -/
def readDouble? (text : String) : Option Float :=
  (readBits? Binary.double text).map fun bits => Float.ofBits (UInt64.ofNat bits)

/-- A whole text as a single. -/
def readSingle? (text : String) : Option Float32 :=
  (readBits? Binary.single text).map fun bits => Float32.ofBits (UInt32.ofNat bits)

/-- A whole text as a natural number below `limit`: digits with an optional plus sign. -/
def readWhole? (limit : Nat) (text : String) : Option Nat :=
  let digits :=
    match text.toList with
    | '+' :: rest => rest
    | rest => rest
  if digits.isEmpty || !digits.all Char.isDigit then none
  else if valueOf digits < limit then some (valueOf digits)
  else none

example : (readDouble? "1e-3").map Float.toBits = some (0.001 : Float).toBits := by decide +kernel
example : (readDouble? ".5").map Float.toBits = some (0.5 : Float).toBits := by decide +kernel
example : (readDouble? "1e").isNone ∧ (readDouble? ".").isNone := by decide +kernel
example : readWhole? 256 "+255" = some 255 ∧ readWhole? 256 "256" = none := by decide +kernel

end ClosedLoop.Decimal
