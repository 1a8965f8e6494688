import ClosedLoop.Rounding

/-!
# Binary floating-point numbers as exact numbers

A finite number of a binary interchange format is a whole multiple of the smallest positive number
of that format, so its exact value is a sign and a natural number of such *units*.

* `Format.decode` — the exact value that a bit pattern stands for.
* `Format.nearest` — the bit pattern of the number nearest to a quotient, ties to the even pattern.
* `Format.sum`, `Format.product`, `Format.quotient` — arithmetic on patterns, rounded to the nearest
  pattern.
* `exact`, `ofQuotient`, `ofWhole` — the same for the double-precision type `Float`.
-/

namespace ClosedLoop.Binary

/-- A binary interchange format: the widths of the stored fraction and of the exponent field. -/
structure Format where
  fractionBits : Nat
  exponentBits : Nat

/-- Double precision. -/
def double : Format := ⟨52, 11⟩

/-- Single precision. -/
def single : Format := ⟨23, 8⟩

/-- What a bit pattern stands for: a finite value is `units` times the smallest positive number. -/
inductive Exact where
  | notANumber
  | infinite (negative : Bool)
  | finite (negative : Bool) (units : Nat)
  deriving DecidableEq, Repr

namespace Format

/-- The number of units in one: `2 ^ 1074` for double precision. -/
def unitsPerOne (f : Format) : Nat :=
  1 <<< ((1 <<< (f.exponentBits - 1)) - 2 + f.fractionBits)

/-- The pattern of positive infinity; every pattern below it is a finite non-negative number. -/
def infinityBits (f : Format) : Nat :=
  ((1 <<< f.exponentBits) - 1) <<< f.fractionBits

/-- The weight of the sign bit. -/
def signBit (f : Format) : Nat :=
  1 <<< (f.fractionBits + f.exponentBits)

/-- The fraction field of a pattern. -/
def fraction (f : Format) (bits : Nat) : Nat :=
  bits % (1 <<< f.fractionBits)

/-- The exponent field of a pattern. -/
def exponent (f : Format) (bits : Nat) : Nat :=
  (bits >>> f.fractionBits) % (1 <<< f.exponentBits)

/-- Is the sign bit of a pattern set? -/
def negative (f : Format) (bits : Nat) : Bool :=
  bits / f.signBit % 2 == 1

/-- The units of a finite pattern with the given fields: an exponent field of zero has no hidden
bit, every other one adds it and doubles with each step. -/
def unitsOf (f : Format) (exponent fraction : Nat) : Nat :=
  if exponent = 0 then fraction else ((1 <<< f.fractionBits) + fraction) <<< (exponent - 1)

/-- The units of a finite pattern without its sign. -/
def magnitude (f : Format) (bits : Nat) : Nat :=
  f.unitsOf (f.exponent bits) (f.fraction bits)

/-- The exact value that a pattern stands for. -/
def decode (f : Format) (bits : Nat) : Exact :=
  if f.exponent bits = (1 <<< f.exponentBits) - 1 then
    if f.fraction bits = 0 then .infinite (f.negative bits) else .notANumber
  else .finite (f.negative bits) (f.magnitude bits)

/-- How many binary places the units of a value of this size are coarser than one unit. -/
def coarseness (f : Format) (units : Nat) : Nat :=
  units.log2 - f.fractionBits

/-- The pattern of the non-negative number nearest to `num / den`, ties to the even pattern.
What rounds beyond the largest finite number is infinity. -/
def nearest (f : Format) (num den : Nat) : Nat :=
  let scaled := num * f.unitsPerOne
  let shift := f.coarseness (scaled / den)
  min f.infinityBits ((shift <<< f.fractionBits) + roundHalfEven scaled (den <<< shift))

/-- The pattern nearest to the sum of two finite numbers without their signs. -/
def sum (f : Format) (a b : Nat) : Nat :=
  f.nearest (f.magnitude a + f.magnitude b) f.unitsPerOne

/-- The pattern nearest to the product of two finite numbers without their signs. -/
def product (f : Format) (a b : Nat) : Nat :=
  f.nearest (f.magnitude a * f.magnitude b) (f.unitsPerOne * f.unitsPerOne)

/-- The pattern nearest to the quotient of two finite numbers without their signs. -/
def quotient (f : Format) (a b : Nat) : Nat :=
  f.nearest (f.magnitude a) (f.magnitude b)

/-- `nearest` with a sign. -/
def nearestSigned (f : Format) (isNegative : Bool) (num den : Nat) : Nat :=
  if isNegative then f.signBit + f.nearest num den else f.nearest num den

end Format

/-- The exact value of a double. -/
def exact (x : Float) : Exact :=
  double.decode x.toBits.toNat

/-- The exact value of a single. -/
def exact32 (x : Float32) : Exact :=
  single.decode x.toBits.toNat

/-- The double nearest to a quotient. -/
def ofQuotient (isNegative : Bool) (num den : Nat) : Float :=
  Float.ofBits (UInt64.ofNat (double.nearestSigned isNegative num den))

/-- The double nearest to a whole number. -/
def ofWhole (n : Nat) : Float :=
  ofQuotient false n 1

/-- A double rounded to single precision. -/
def toSingle (x : Float) : Float32 :=
  match exact x with
  | .notANumber => Float32.ofBits 0x7fc00000
  | .infinite neg => Float32.ofBits (if neg then 0xff800000 else 0x7f800000)
  | .finite neg units =>
    Float32.ofBits (UInt32.ofNat (single.nearestSigned neg units double.unitsPerOne))

example : (ofWhole 3).toBits = 0x4008000000000000 := by decide +kernel
example : (ofQuotient true 1 10).toBits = 0xbfb999999999999a := by decide +kernel
example : exact 0.5 = .finite false (1 <<< 1073) := by decide +kernel
example : (toSingle 0.1).toBits = 0x3dcccccd := by decide +kernel

end ClosedLoop.Binary
