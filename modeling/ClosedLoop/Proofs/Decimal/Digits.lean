import ClosedLoop.Decimal.Reading
import ClosedLoop.Decimal.Text
import Mathlib.Algebra.Order.Field.Basic
import Mathlib.Data.Rat.Cast.Order
import Mathlib.Tactic.Ring

namespace ClosedLoop.Decimal

/-!
# Digits and what they stand for

* `IsDigits`, `NoDigit` — a row of digits, and a text that does not go on with one;
* `takeWhile_digits`, `dropWhile_digits` — where a row of digits ends;
* `valueOf_wholeChars`, `isDigits_wholeChars`, `wholeChars_leading` — the digits of a whole number
  stand for it, and only zero starts with a zero;
* `decimalValue`, `Scientific.value` — the rational number that digits around a point with an
  exponent stand for.
-/

/-! ### Rows of digits -/

/-- Digits, at least one. -/
structure IsDigits (ds : List Char) : Prop where
  ne_nil : ds ≠ []
  isDigit : ∀ c ∈ ds, c.isDigit = true

/-- The text does not start with a digit. -/
def NoDigit (cs : List Char) : Prop := ∀ c ∈ cs.head?, c.isDigit = false

variable {ds rest : List Char}

/-- Without a digit in front there is no digit to take. -/
theorem takeWhile_of_noDigit (h : NoDigit rest) : rest.takeWhile Char.isDigit = [] := by
  cases rest with
  | nil => rfl
  | cons c rest => rw [List.takeWhile_cons, h c rfl]; rfl

/-- Without a digit in front there is no digit to skip. -/
theorem dropWhile_of_noDigit (h : NoDigit rest) : rest.dropWhile Char.isDigit = rest := by
  cases rest with
  | nil => rfl
  | cons c rest => rw [List.dropWhile_cons, h c rfl]; rfl

/-- A row of digits is taken as a whole. -/
theorem takeWhile_digits (hds : ∀ c ∈ ds, c.isDigit = true) (h : NoDigit rest) :
    (ds ++ rest).takeWhile Char.isDigit = ds := by
  rw [List.takeWhile_append_of_pos hds, takeWhile_of_noDigit h, List.append_nil]

/-- What follows a row of digits is left. -/
theorem dropWhile_digits (hds : ∀ c ∈ ds, c.isDigit = true) (h : NoDigit rest) :
    (ds ++ rest).dropWhile Char.isDigit = rest := by
  rw [List.dropWhile_append_of_pos hds, dropWhile_of_noDigit h]

/-- Padding consists of digits. -/
theorem isDigit_of_mem_replicate {n : Nat} : ∀ c ∈ List.replicate n '0', c.isDigit = true := by
  intro c hc
  rw [List.eq_of_mem_replicate hc]
  decide

/-! ### Values -/

/-- The value of digits is the one of the library. -/
theorem valueOf_eq (ds : List Char) : valueOf ds = Nat.ofDigitChars 10 ds 0 := rfl

/-- Digits after others add to a power of ten times these. -/
theorem ofDigitChars_eq (ds : List Char) (n : Nat) :
    Nat.ofDigitChars 10 ds n = n * 10 ^ ds.length + valueOf ds := by
  rw [valueOf_eq]
  induction ds generalizing n with
  | nil => simp [Nat.ofDigitChars]
  | cons c ds ih =>
    rw [Nat.ofDigitChars_cons, Nat.ofDigitChars_cons, ih, ih (10 * 0 + _), List.length_cons]
    ring

/-- The value of two groups of digits. -/
theorem valueOf_append (ds es : List Char) :
    valueOf (ds ++ es) = valueOf ds * 10 ^ es.length + valueOf es := by
  rw [valueOf_eq, Nat.ofDigitChars_append, ofDigitChars_eq, ← valueOf_eq]

/-- Zeros have no value. -/
theorem valueOf_replicate_zero (n : Nat) : valueOf (List.replicate n '0') = 0 := by
  rw [valueOf_eq, Nat.ofDigitChars_replicate_zero, Nat.mul_zero]

/-- Digits stay below the power of ten of their number. -/
theorem valueOf_lt (hds : ∀ c ∈ ds, c.isDigit = true) : valueOf ds < 10 ^ ds.length := by
  induction ds with
  | nil => decide
  | cons c ds ih =>
    obtain ⟨hc, hrest⟩ := List.forall_mem_cons.mp hds
    have hdigit : valueOf [c] ≤ 9 := by
      simp only [Char.isDigit, Bool.and_eq_true, decide_eq_true_eq] at hc
      show 10 * 0 + (c.toNat - '0'.toNat) ≤ 9
      have hnine : c.toNat ≤ '9'.toNat := hc.2
      have : '9'.toNat = '0'.toNat + 9 := rfl
      omega
    have hvalue : valueOf (c :: ds) = valueOf [c] * 10 ^ ds.length + valueOf ds :=
      valueOf_append [c] ds
    -- The first digit is nine at most, and the others stay below the power before.
    rw [hvalue, List.length_cons, Nat.pow_succ]
    have hmul := Nat.mul_le_mul_right (10 ^ ds.length) hdigit
    have hlt := ih hrest
    omega

/-- A whole number is written in digits. -/
theorem isDigits_wholeChars (n : Nat) : IsDigits (wholeChars n) :=
  ⟨Nat.toDigits_ne_nil, fun _ hc => Nat.isDigit_of_mem_toDigits (by decide) (by decide) hc⟩

/-- The digits of a whole number stand for it. -/
theorem valueOf_wholeChars (n : Nat) : valueOf (wholeChars n) = n :=
  Nat.ofDigitChars_toDigits (by decide) (by decide)

/-- Only zero starts with a zero. -/
theorem wholeChars_leading {n : Nat} {rest : List Char} (h : wholeChars n = '0' :: rest) :
    n = 0 := by
  induction n using Nat.strong_induction_on generalizing rest with
  | _ n ih =>
    -- A number of one digit is that digit. Of a longer one the first digit is that of its tenth.
    rcases Nat.lt_or_ge n 10 with hn | hn
    · have hsingle : wholeChars n = [n.digitChar] := Nat.toDigits_of_lt_base hn
      rw [hsingle, List.cons.injEq] at h
      rw [← valueOf_wholeChars n, hsingle, h.1]
      rfl
    · rw [wholeChars, Nat.toDigits_of_base_le (by decide) hn] at h
      obtain ⟨c, cs, hcs⟩ := List.exists_cons_of_ne_nil (isDigits_wholeChars (n / 10)).ne_nil
      rw [← wholeChars, hcs, List.cons_append, List.cons.injEq] at h
      have hzero := ih (n / 10) (by omega) (h.1 ▸ hcs)
      omega

/-! ### Decimals as rational numbers -/

/-- The number that digits before and after a point and an exponent stand for. -/
def decimalValue (whole fraction : List Char) (exponent : Int) : ℚ :=
  valueOf (whole ++ fraction) * 10 ^ (exponent - fraction.length)

/-- The number that a decimal stands for. -/
def Scientific.value (s : Scientific) : ℚ := s.digits * 10 ^ s.exponent

end ClosedLoop.Decimal
