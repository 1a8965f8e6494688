import ClosedLoop.Decimal.Shortest

/-!
# Decimal text of floating-point numbers

The decisions of a number format are one record, `Style`; the digits come from `shortest`.

* `plainStyle` — always positional, nothing after a whole number: the text used in messages.
* `jsonStyle` — positional for moderate sizes and with an exponent otherwise, `.0` after a whole
  number: the text used in JSON.
* `fixed` — a given number of places after the point, the exact value rounded half to even.
-/

namespace ClosedLoop.Decimal

open Binary (Format Exact)

/-- The decisions of a shortest-digits number format. -/
structure Style where
  /-- Which of two equally near decimals is taken. -/
  tie : Tie
  /-- Is a number whose first digit has this exponent written without an exponent? -/
  positional : Int → Bool
  /-- What follows a whole number. -/
  wholeMark : List Char
  /-- The text for what is not a number. -/
  nan : List Char
  /-- The text for an infinity, after the sign. -/
  infinity : List Char
  /-- Does an infinity carry its sign? -/
  infinitySigned : Bool

/-- Messages: no exponent ever, ties up, no mark on whole numbers. -/
def plainStyle : Style where
  tie := .up
  positional := fun _ => true
  wholeMark := []
  nan := "NaN".toList
  infinity := "inf".toList
  infinitySigned := true

/-- JSON: positional from `0.00001` to below `1e16`, ties to even, `null` for what JSON lacks. -/
def jsonStyle : Style where
  tie := .toEven
  positional := fun e => -5 ≤ e && e ≤ 15
  wholeMark := ['.', '0']
  nan := "null".toList
  infinity := "null".toList
  infinitySigned := false

/-- The decimal digits of a whole number. -/
def wholeChars (n : Nat) : List Char := Nat.toDigits 10 n

/-- The decimal digits of a whole number, with a minus sign if it is negative. -/
def intChars (i : Int) : List Char :=
  if i < 0 then '-' :: wholeChars i.natAbs else wholeChars i.natAbs

/-- Digits in positional notation, the first of them standing for `10 ^ magnitude`. -/
def positionalChars (wholeMark digits : List Char) (magnitude : Int) : List Char :=
  if magnitude < 0 then
    '0' :: '.' :: List.replicate (magnitude.natAbs - 1) '0' ++ digits
  else
    let whole := magnitude.toNat + 1
    if digits.length ≤ whole then
      digits ++ List.replicate (whole - digits.length) '0' ++ wholeMark
    else digits.take whole ++ '.' :: digits.drop whole

/-- Digits with a point after the first one and a signed exponent. -/
def exponentChars (digits : List Char) (magnitude : Int) : List Char :=
  let mantissa :=
    match digits with
    | first :: second :: rest => first :: '.' :: second :: rest
    | short => short
  mantissa ++ 'e' :: (if magnitude < 0 then '-' else '+') :: wholeChars magnitude.natAbs

/-- A non-negative finite number in a style. -/
def magnitudeChars (f : Format) (style : Style) (units : Nat) : List Char :=
  if units = 0 then '0' :: style.wholeMark
  else
    let s := shortest f style.tie units
    let digits := wholeChars s.digits
    let magnitude := s.exponent + digits.length - 1
    if style.positional magnitude then positionalChars style.wholeMark digits magnitude
    else exponentChars digits magnitude

/-- The text of an exact value in a style. -/
def exactChars (f : Format) (style : Style) : Exact → List Char
  | .notANumber => style.nan
  | .infinite neg => if neg && style.infinitySigned then '-' :: style.infinity else style.infinity
  | .finite neg units =>
    if neg then '-' :: magnitudeChars f style units else magnitudeChars f style units

/-- The text of a double in a style. -/
def chars (style : Style) (x : Float) : List Char :=
  exactChars Binary.double style (Binary.exact x)

/-- The text of a double in a message. -/
def plain (x : Float) : String :=
  String.ofList (chars plainStyle x)

/-- The text of a single in a message. -/
def plain32 (x : Float32) : String :=
  String.ofList (exactChars Binary.single plainStyle (Binary.exact32 x))

/-! ### Fixed places -/

/-- `n / 10 ^ places` with all its places. -/
def placesChars (places n : Nat) : List Char :=
  let fraction := wholeChars (n % powerOfTen places)
  wholeChars (n / powerOfTen places) ++ '.' ::
    (List.replicate (places - fraction.length) '0' ++ fraction)

/-- A double with the given number of places, at least one: the exact value rounded half to even.
The sign of a negative zero is kept. -/
def fixed (places : Nat) (x : Float) : String :=
  match Binary.exact x with
  | .notANumber => "NaN"
  | .infinite neg => if neg then "-inf" else "inf"
  | .finite neg units =>
    let text := placesChars places
      (roundHalfEven (units * powerOfTen places) Binary.double.unitsPerOne)
    String.ofList (if neg then '-' :: text else text)

example : plain 1e20 = "100000000000000000000" := by decide +kernel
example : plain 1e-7 = "0.0000001" := by decide +kernel
example : plain (0.1 + 0.2) = "0.30000000000000004" := by decide +kernel
example : chars jsonStyle 1e16 = "1e+16".toList := by decide +kernel
example : chars jsonStyle 5e-324 = "5e-324".toList := by decide +kernel
example : chars jsonStyle (-0.0) = "-0.0".toList := by decide +kernel
example : fixed 2 0.125 = "0.12" ∧ fixed 1 (-0.0) = "-0.0" := by decide +kernel

end ClosedLoop.Decimal
