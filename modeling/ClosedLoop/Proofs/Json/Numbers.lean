import ClosedLoop.Json.Text
import ClosedLoop.Json.Number
import ClosedLoop.Proofs.Decimal.Range
import ClosedLoop.Proofs.Double.Unpacked

namespace ClosedLoop.Json

open Decimal (IsDigits NoDigit Numeral Scientific valueOf wholeChars decimalValue)

/-!
# Numbers that are printed can be read

A number ends where its text can go on with no digit, point or exponent mark. Whole numbers within
64 bits are read exactly. The reader refuses numbers that are too large for it, and no double is
printed as such a number.

* `Apart` — what may follow a number;
* `number?_intChars` — **a whole number within 64 bits is read as it was printed**;
* `number?_numeral` — a numeral is read as a double, if it is not too large;
* `doubleOf?_isSome` — numbers that are not too large;
* `number?_double` — **every finite double is printed as something that is read as a double**.
-/

/-- What may follow a number: nothing that could be a part of it. -/
def Apart (cs : List Char) : Prop :=
  ∀ c ∈ cs.head?, c.isDigit = false ∧ c ≠ '.' ∧ c ≠ 'e' ∧ c ≠ 'E'

variable {more : List Char}

/-- Nothing comes after a number at the end of the text. -/
theorem apart_nil : Apart [] := fun _ h => nomatch h

/-- A character that no number goes on with comes after a number. -/
theorem apart_cons {c : Char} (h : c.isDigit = false ∧ c ≠ '.' ∧ c ≠ 'e' ∧ c ≠ 'E') :
    Apart (c :: more) := by
  rintro _ ⟨⟩
  exact h

/-- What comes after a number begins with no digit. -/
theorem Apart.noDigit (h : Apart more) : NoDigit more := fun c hc => (h c hc).1

/-! ### Parts of a number -/

/-- The whole part is read up to the first character that is no digit. -/
theorem wholePart?_append {whole rest : List Char} (hwhole : IsDigits whole)
    (hleading : ∀ tail, whole = '0' :: tail → tail = []) (hrest : NoDigit rest) :
    wholePart? (whole ++ rest) = some (whole, rest) := by
  rw [wholePart?, Decimal.takeWhile_digits hwhole.isDigit hrest,
    Decimal.dropWhile_digits hwhole.isDigit hrest]
  split
  · exact absurd rfl hwhole.ne_nil
  · exact absurd (hleading _ rfl) (by simp)
  · rfl

/-- Digits after a point are the fraction. -/
theorem fractionPart?_point {digits rest : List Char} (hdigits : IsDigits digits)
    (hrest : NoDigit rest) :
    fractionPart? ('.' :: digits ++ rest) = some (some digits, rest) := by
  rw [List.cons_append, fractionPart?, Decimal.takeWhile_digits hdigits.isDigit hrest,
    Decimal.dropWhile_digits hdigits.isDigit hrest]
  simp [hdigits.ne_nil]

/-- Without a point there is no fraction. -/
theorem fractionPart?_of_ne {cs : List Char} (h : ∀ c ∈ cs.head?, c ≠ '.') :
    fractionPart? cs = some (none, cs) := by
  rw [fractionPart?.eq_def]
  split
  · exact absurd rfl (h _ rfl)
  · rfl

/-- A mark, a sign and digits are the exponent. -/
theorem exponentPart?_mark {digits rest : List Char} (e : Int) (hdigits : IsDigits digits)
    (hvalue : valueOf digits = e.natAbs) (hrest : NoDigit rest) :
    exponentPart? ('e' :: (if e < 0 then '-' else '+') :: digits ++ rest) =
      some (some e, rest) := by
  -- The sign is there in either case, and tells which exponents are negative.
  have hsign : Decimal.takeSign ((if e < 0 then '-' else '+') :: digits ++ rest) =
      (decide (e < 0), digits ++ rest) := by
    by_cases he : e < 0 <;> simp [he, Decimal.takeSign]
  rw [List.cons_append, exponentPart?, if_pos (.inl rfl), hsign]
  dsimp only
  rw [Decimal.takeWhile_digits hdigits.isDigit hrest,
    Decimal.dropWhile_digits hdigits.isDigit hrest,
    hvalue]
  have hexponent : (if decide (e < 0) = true then -(e.natAbs : Int) else e.natAbs) = e := by
    split <;> rename_i h <;> rw [decide_eq_true_eq] at h <;> omega
  simp only [hexponent, List.isEmpty_iff, hdigits.ne_nil, if_false]

/-- Without a mark there is no exponent. -/
theorem exponentPart?_of_ne {cs : List Char} (h : ∀ c ∈ cs.head?, c ≠ 'e' ∧ c ≠ 'E') :
    exponentPart? cs = some (none, cs) := by
  cases cs with
  | nil => rfl
  | cons c cs =>
    rw [exponentPart?, if_neg]
    exact not_or.mpr (h c rfl)

/-- The sign of a number. -/
def signChars (isNegative : Bool) : List Char := if isNegative then ['-'] else []

/-- A number is read part by part. -/
theorem number?_eq {isNegative : Bool} {body whole afterWhole afterFraction rest : List Char}
    {fraction : Option (List Char)} {exponent : Option Int} {n : Number}
    (hsign : ∀ c ∈ body.head?, c ≠ '-') (hwhole : wholePart? body = some (whole, afterWhole))
    (hfraction : fractionPart? afterWhole = some (fraction, afterFraction))
    (hexponent : exponentPart? afterFraction = some (exponent, rest))
    (hn : numberOf? isNegative whole fraction exponent = some n) :
    number? (signChars isNegative ++ body) = some (n, rest) := by
  -- A minus is taken off first; a body that begins with none is all there is.
  cases isNegative with
  | true => simp [signChars, number?, hwhole, hfraction, hexponent, hn]
  | false =>
    have hbody : signChars false ++ body = body := rfl
    rw [hbody, number?]
    · simp only [hwhole, hfraction, hexponent, hn, Option.bind_eq_bind, Option.bind_some,
        Option.pure_def]
    · rintro tail rfl
      exact hsign '-' rfl rfl

/-! ### Whole numbers -/

/-- A digit is none of the other characters. -/
theorem ne_of_isDigit {c d : Char} (hc : c.isDigit = true) (hd : d.isDigit = false) : c ≠ d := by
  rintro rfl
  rw [hc] at hd
  cases hd

/-- The first of some digits is none of the other marks. -/
theorem head_append_ne {digits rest : List Char} {d : Char} (hdigits : IsDigits digits)
    (hd : d.isDigit = false) : ∀ c ∈ (digits ++ rest).head?, c ≠ d := by
  obtain ⟨c, cs, rfl⟩ := List.exists_cons_of_ne_nil hdigits.ne_nil
  rintro _ ⟨⟩
  exact ne_of_isDigit (hdigits.isDigit c List.mem_cons_self) hd

/-- **A whole number within 64 bits is read as it was printed.** -/
theorem number?_intChars {i : Int} (hlow : -(2 ^ 63) ≤ i) (hhigh : i < 2 ^ 64)
    (hmore : Apart more) : number? (Decimal.intChars i ++ more) = some (.whole i, more) := by
  have hdigits := Decimal.isDigits_wholeChars i.natAbs
  -- What is printed is a sign, if need be, and the digits of the absolute value.
  have hchars : Decimal.intChars i ++ more =
      signChars (decide (i < 0)) ++ (wholeChars i.natAbs ++ more) := by
    rw [Decimal.intChars, signChars]
    by_cases hi : i < 0 <;> simp [hi]
  have hsize : UInt64.size = 2 ^ 64 := rfl
  rw [hchars]
  refine number?_eq (head_append_ne hdigits (by decide))
    (wholePart?_append hdigits (fun tail h => ?_) hmore.noDigit)
    (fractionPart?_of_ne fun c hc => (hmore c hc).2.1)
    (exponentPart?_of_ne fun c hc => (hmore c hc).2.2) ?_
  · rw [Decimal.wholeChars_leading h] at h
    exact (List.cons.inj h).2.symm
  · rw [numberOf?, Decimal.valueOf_wholeChars]
    -- Negative numbers go down to one more than half of the range, and others up to all of it.
    by_cases hi : i < 0
    · have hrange : 0 < i.natAbs ∧ i.natAbs ≤ UInt64.size / 2 := by omega
      have hwhole : -(i.natAbs : Int) = i := by omega
      simp only [hi, hrange, hwhole, decide_true, Option.isSome_none, Bool.or_self, and_self,
        if_true, Bool.false_eq_true, if_false]
    · have hrange : i.natAbs < UInt64.size := by omega
      have hwhole : (i.natAbs : Int) = i := by omega
      simp only [hi, hrange, hwhole, decide_false, Option.isSome_none, Bool.or_self, if_true,
        Bool.false_eq_true, if_false]

/-! ### Numerals -/

section Numerals

variable {n : Numeral}

/-- The exponent of a numeral is read as such. -/
theorem exponentPart?_numeral (n : Numeral) (hmore : Apart more) :
    exponentPart? (n.exponentPart ++ more) = some (n.exponent, more) := by
  obtain ⟨whole, fraction, exponent⟩ := n
  cases exponent with
  | none => exact exponentPart?_of_ne fun c hc => (hmore c hc).2.2
  | some e =>
    exact exponentPart?_mark e (Decimal.isDigits_wholeChars _) (Decimal.valueOf_wholeChars _)
      hmore.noDigit

/-- No digit and no point follow the digits after the point. -/
theorem head_exponentPart (n : Numeral) (hmore : Apart more) :
    ∀ c ∈ (n.exponentPart ++ more).head?, c.isDigit = false ∧ c ≠ '.' := by
  obtain ⟨whole, fraction, exponent⟩ := n
  cases exponent with
  | none => exact fun c hc => ⟨(hmore c hc).1, (hmore c hc).2.1⟩
  | some e =>
    rintro _ ⟨⟩
    decide

/-- The fraction of a numeral is read as such. -/
theorem fractionPart?_numeral (hn : n.WellFormed) (hmore : Apart more) :
    fractionPart? (n.fractionChars ++ (n.exponentPart ++ more)) =
      some (n.fraction, n.exponentPart ++ more) := by
  have hafter := head_exponentPart n hmore
  obtain ⟨whole, fraction, exponent⟩ := n
  cases fraction with
  | none => exact fractionPart?_of_ne fun c hc => (hafter c hc).2
  | some digits => exact fractionPart?_point (hn.fraction digits rfl) fun c hc => (hafter c hc).1

/-- No digit follows the digits before the point. -/
theorem noDigit_fractionChars (n : Numeral) (hmore : Apart more) :
    NoDigit (n.fractionChars ++ (n.exponentPart ++ more)) := by
  have hafter := head_exponentPart n hmore
  obtain ⟨whole, fraction, exponent⟩ := n
  cases fraction with
  | none => exact fun c hc => (hafter c hc).1
  | some digits =>
    rintro _ ⟨⟩
    decide

/-- A numeral is read as a double, if it is not too large. -/
theorem number?_numeral (hn : n.WellFormed) (isNegative : Bool) {x : Float}
    (hx : doubleOf? isNegative n.whole (n.fraction.getD []) (n.exponent.getD 0) = some x)
    (hmore : Apart more) :
    number? (signChars isNegative ++ (n.chars ++ more)) = some (.double x, more) := by
  rw [Numeral.chars, List.append_assoc, List.append_assoc]
  refine number?_eq (head_append_ne hn.whole (by decide))
    (wholePart?_append hn.whole hn.leading (noDigit_fractionChars n hmore))
    (fractionPart?_numeral hn hmore) (exponentPart?_numeral n hmore) ?_
  rw [numberOf?, hn.marked, hx]
  rfl

end Numerals

/-! ### Digits that are kept -/

namespace Kept

/-- The number that the kept digits stand for. -/
def value (k : Kept) : ℚ := k.significand * 10 ^ k.exponent

/-- Digits before the point are all kept if they stand for less than `2 ^ 64`. -/
theorem takeWhole_eq (k : Kept) {ds : List Char}
    (h : Nat.ofDigitChars 10 ds k.significand < UInt64.size) :
    k.takeWhole ds = ⟨Nat.ofDigitChars 10 ds k.significand, k.exponent⟩ := by
  induction ds generalizing k with
  | nil => rfl
  | cons c ds ih =>
    rw [Nat.ofDigitChars_cons] at h
    have hnext : 10 * k.significand + (c.toNat - '0'.toNat) < UInt64.size := by
      refine lt_of_le_of_lt ?_ h
      rw [Decimal.ofDigitChars_eq]
      exact (Nat.le_mul_of_pos_right _ (Nat.pow_pos (by decide))).trans (Nat.le_add_right _ _)
    rw [takeWhole, if_pos hnext]
    exact ih { k with significand := 10 * k.significand + (c.toNat - '0'.toNat) } h

/-- What is kept stays below `2 ^ 64`. -/
theorem significand_takeFraction_lt (k : Kept) (ds : List Char) (h : k.significand < UInt64.size) :
    (k.takeFraction ds).significand < UInt64.size := by
  induction ds generalizing k with
  | nil => exact h
  | cons c ds ih =>
    rw [takeFraction]
    split
    · rename_i hnext
      exact ih _ hnext
    · exact h

/-- Passing over digits after the point makes the number no larger. -/
theorem value_takeFraction_le (k : Kept) (ds : List Char) :
    (k.takeFraction ds).value ≤
      Nat.ofDigitChars 10 ds k.significand * 10 ^ (k.exponent - ds.length) := by
  induction ds generalizing k with
  | nil => simp [takeFraction, value, Nat.ofDigitChars]
  | cons c ds ih =>
    rw [takeFraction]
    split
    · refine (ih _).trans (le_of_eq ?_)
      rw [Nat.ofDigitChars_cons, List.length_cons]
      congr 2
      push_cast
      ring
    -- The digits that are passed over would only make the significand larger.
    · have hdigits : k.significand * 10 ^ (c :: ds).length ≤
          Nat.ofDigitChars 10 (c :: ds) k.significand := by
        rw [Decimal.ofDigitChars_eq]
        exact Nat.le_add_right _ _
      have hcast : (k.significand : ℚ) * 10 ^ (c :: ds).length ≤
          Nat.ofDigitChars 10 (c :: ds) k.significand := by exact_mod_cast hdigits
      calc k.value
          = k.significand * 10 ^ (c :: ds).length * 10 ^ (k.exponent - (c :: ds).length) := by
            rw [value, mul_assoc, ← zpow_natCast, ← zpow_add₀ (by norm_num),
              add_sub_cancel]
        _ ≤ Nat.ofDigitChars 10 (c :: ds) k.significand *
              10 ^ (k.exponent - (c :: ds).length) :=
            mul_le_mul_of_nonneg_right hcast (by positivity)

end Kept

/-! ### Numbers that are not too large -/

open Decimal (belowLargest powerOfTen)

/-- Powers of ten grow. -/
theorem powerOfTen_mono {m n : Nat} (h : m ≤ n) : powerOfTen m ≤ powerOfTen n :=
  Nat.pow_le_pow_right (by decide) h

/-- The double of a whole number grows with it. -/
theorem wholeBits_mono {m n : Nat} (h : m ≤ n) : wholeBits m ≤ wholeBits n :=
  Binary.Format.nearest_mono Nat.one_pos Nat.one_pos (Nat.mul_le_mul_right 1 h)

/-- The double of a whole number is not negative. -/
theorem wholeBits_lt_signBit (n : Nat) : wholeBits n < Binary.double.signBit :=
  Binary.Format.nearest_lt_signBit _ _

/-- Larger factors have a larger product. -/
theorem product_wholeBits_mono {m n m' n' : Nat} (hm : m ≤ m') (hn : n ≤ n') :
    Binary.double.product (wholeBits m) (wholeBits n) ≤
      Binary.double.product (wholeBits m') (wholeBits n') := by
  have hone := Binary.Format.unitsPerOne_pos Binary.double
  have hpos := Nat.mul_pos hone hone
  refine Binary.Format.nearest_mono hpos hpos (Nat.mul_le_mul_right _ (Nat.mul_le_mul ?_ ?_))
  · exact Binary.Format.magnitude_mono (wholeBits_mono hm) (wholeBits_lt_signBit _)
  · exact Binary.Format.magnitude_mono (wholeBits_mono hn) (wholeBits_lt_signBit _)

/-- The largest significands with the powers of ten beyond `10 ^ 288`. -/
theorem products_finite : ∀ n < 20,
    Binary.double.product (wholeBits (belowLargest / powerOfTen (n + 289)))
      (powerBits (n + 289)) < Binary.double.infinityBits := by
  decide +kernel

/-- The largest significand times the largest power that counts as small is finite. -/
theorem product_small_finite :
    Binary.double.product (wholeBits UInt64.size) (powerBits 288) < Binary.double.infinityBits := by
  decide +kernel

/-- A significand below `2 ^ 64` and a power of ten have a finite product in floating point if their
exact product is bounded as what is printed. -/
theorem product_finite {significand n : Nat} (hsmall : significand < UInt64.size)
    (hpos : 0 < significand) (h : significand * powerOfTen n ≤ belowLargest) :
    n ≤ 308 ∧
      Binary.double.product (wholeBits significand) (powerBits n) < Binary.double.infinityBits := by
  have hten : 0 < powerOfTen n := Nat.pow_pos (by decide)
  -- A small power does no harm to any significand, and a large one leaves only a small significand.
  rcases Nat.lt_or_ge n 289 with hn | hn
  · refine ⟨by omega, lt_of_le_of_lt ?_ product_small_finite⟩
    exact product_wholeBits_mono hsmall.le (powerOfTen_mono (Nat.le_of_lt_succ hn))
  · have hn308 : n ≤ 308 := by
      by_contra hlarge
      have hpower : powerOfTen 309 ≤ powerOfTen n := powerOfTen_mono (by omega)
      have hmul : powerOfTen n ≤ significand * powerOfTen n := Nat.le_mul_of_pos_left _ hpos
      exact absurd (hpower.trans (hmul.trans h)) (by decide +kernel)
    obtain ⟨i, rfl⟩ := Nat.exists_eq_add_of_le' hn
    refine ⟨hn308, lt_of_le_of_lt ?_ (products_finite i (by omega))⟩
    exact product_wholeBits_mono ((Nat.le_div_iff_mul_le hten).mpr h) (Nat.le_refl _)

/-- A bounded significand and exponent give a finite double. -/
theorem scaledBits?_isSome {significand : Nat} {exponent : Int}
    (hsmall : significand < UInt64.size)
    (h : (significand : ℚ) * 10 ^ exponent ≤ belowLargest) :
    (scaledBits? (wholeBits significand) exponent).isSome := by
  -- Negative exponents divide, which never overflows.
  cases exponent with
  | negSucc n => rfl
  | ofNat n =>
    rw [scaledBits?, multipliedBits?]
    rcases Nat.eq_zero_or_pos significand with rfl | hpos
    · rfl
    · have hexact : significand * powerOfTen n ≤ belowLargest := by
        rw [Int.ofNat_eq_natCast, zpow_natCast] at h
        exact_mod_cast h
      obtain ⟨hn, hfinite⟩ := product_finite hsmall hpos hexact
      split
      · rfl
      · simp only [if_pos hfinite, Option.isSome_some]

/-- A number that is bounded as what is printed is not too large for the reader. -/
theorem doubleOf?_isSome {whole fraction : List Char} {exponent : Int} (isNegative : Bool)
    (hwhole : IsDigits whole) (hlength : whole.length ≤ 16)
    (h : decimalValue whole fraction exponent ≤ belowLargest) :
    ∃ x, doubleOf? isNegative whole fraction exponent = some x := by
  have hvalue : valueOf whole < UInt64.size :=
    (Decimal.valueOf_lt hwhole.isDigit).trans_le
      ((Nat.pow_le_pow_right (by decide) hlength).trans (by decide))
  -- The digits of the whole part all fit into the significand, and those behind may be passed over.
  have hkept : Kept.nothing.takeWhole whole = ⟨valueOf whole, 0⟩ := Kept.takeWhole_eq _ hvalue
  have hexact : ((⟨valueOf whole, 0⟩ : Kept).takeFraction fraction).value * 10 ^ exponent ≤
      belowLargest := by
    refine le_trans ?_ h
    have hle := Kept.value_takeFraction_le ⟨valueOf whole, 0⟩ fraction
    refine (mul_le_mul_of_nonneg_right hle (by positivity)).trans (le_of_eq ?_)
    dsimp only
    rw [decimalValue, mul_assoc, ← zpow_add₀ (by norm_num), Decimal.valueOf_eq whole,
      ← Nat.ofDigitChars_append, Decimal.valueOf_eq, zero_sub, neg_add_eq_sub]
  rw [Kept.value, mul_assoc, ← zpow_add₀ (by norm_num)] at hexact
  have hsome := scaledBits?_isSome
    (Kept.significand_takeFraction_lt ⟨valueOf whole, 0⟩ fraction hvalue) hexact
  obtain ⟨bits, hbits⟩ := Option.isSome_iff_exists.mp hsome
  rw [doubleOf?, hkept, hbits]
  exact ⟨_, rfl⟩

/-! ### Doubles -/

open Decimal (magnitudeChars jsonStyle shortest Spells)

/-- A positive number is printed as a numeral for the shortest decimal. -/
theorem spells_magnitudeChars {units : Nat} (hpos : 0 < units) :
    Spells (magnitudeChars Binary.double jsonStyle units)
      (shortest Binary.double .toEven units) := by
  rw [magnitudeChars, if_neg hpos.ne']
  dsimp only
  split
  · rename_i hpositional
    simp only [jsonStyle, Bool.and_eq_true, decide_eq_true_eq] at hpositional
    exact Decimal.spells_positionalChars (Decimal.shortest_isProper _ _ hpos) hpositional.2
  · exact Decimal.spells_exponentChars _

/-- The largest double is printed with an exponent. -/
theorem magnitudeChars_largest :
    magnitudeChars Binary.double jsonStyle ((2 ^ 53 - 1) * 2 ^ 2045) =
      "1.7976931348623157e+308".toList := by
  decide +kernel

/-- What is printed for a finite double without its sign. -/
theorem exists_numeral {units : Nat} (isNegative : Bool)
    (h : units = 0 ∨ ∃ k m, 0 < m ∧ Binary.double.Canonical k m ∧
      k * 2 ^ 52 + m < Binary.double.infinityBits ∧ units = m * 2 ^ k) :
    ∃ n : Numeral, n.WellFormed ∧ n.chars = magnitudeChars Binary.double jsonStyle units ∧
      ∃ x, doubleOf? isNegative n.whole (n.fraction.getD []) (n.exponent.getD 0) = some x := by
  -- Zero is printed as such; every other magnitude has its shortest numeral.
  obtain rfl | ⟨k, m, hpos, hc, hlt, rfl⟩ := h
  · have hvalue : decimalValue ['0'] ['0'] 0 = 0 := by simp [decimalValue, valueOf]
    refine ⟨⟨['0'], some ['0'], none⟩,
      ⟨Decimal.isDigits_zero, by simp, by simp, ?_, rfl⟩, rfl,
      doubleOf?_isSome isNegative Decimal.isDigits_zero (by decide) ?_⟩
    · rintro _ ⟨⟩
      exact Decimal.isDigits_zero
    · exact hvalue.trans_le (Nat.cast_nonneg _)
  · have hinfinity : Binary.double.infinityBits = 2047 * 2 ^ 52 := by decide
    rcases Nat.lt_or_ge (k * 2 ^ 52 + m) (2047 * 2 ^ 52 - 1) with hbelow | hlargest
    · obtain ⟨n, hn, hvalue, hchars⟩ :=
        spells_magnitudeChars (Nat.mul_pos hpos (Nat.two_pow_pos k))
      refine ⟨n, hn, hchars, doubleOf?_isSome isNegative hn.whole hn.small ?_⟩
      have hle := Decimal.shortest_value_le hc hpos hbelow
      rw [← hvalue] at hle
      exact hle
    · -- the largest double itself: its numeral is known
      have hm : m < 2 * 2 ^ 52 := hc.lt
      have hnormal : 2 ^ 52 ≤ m := hc.normal (by omega)
      obtain rfl : k = 2045 := by omega
      obtain rfl : m = 2 ^ 53 - 1 := by omega
      refine ⟨⟨wholeChars 1, some (wholeChars 7976931348623157), some 308⟩,
        ⟨Decimal.isDigits_wholeChars 1,
          fun _ h => absurd (Decimal.wholeChars_leading h) Nat.one_ne_zero, Nat.one_le_ofNat, ?_,
          rfl⟩, ?_, ?_⟩
      · rintro _ ⟨⟩
        exact Decimal.isDigits_wholeChars _
      · rw [magnitudeChars_largest]
        decide +kernel
      · refine Option.isSome_iff_exists.mp ?_
        cases isNegative <;> decide +kernel

/-- A finite double is printed as a numeral with a sign. -/
theorem exists_numeral_double {x : Float} {isNegative : Bool} {units : Nat}
    (h : Binary.exact x = .finite isNegative units) :
    ∃ n : Numeral, n.WellFormed ∧ (Number.double x).chars = signChars isNegative ++ n.chars ∧
      ∃ y, doubleOf? isNegative n.whole (n.fraction.getD []) (n.exponent.getD 0) = some y := by
  have hunits : units = 0 ∨ ∃ k m, 0 < m ∧ Binary.double.Canonical k m ∧
      k * 2 ^ 52 + m < Binary.double.infinityBits ∧ units = m * 2 ^ k := by
    -- What has an exact value is a zero or a finite number.
    cases Double.view x with
    | notANumber hexact => rw [hexact] at h; cases h
    | infinite s hexact => rw [hexact] at h; cases h
    | zero s hexact => rw [hexact] at h; cases h; exact .inl rfl
    | finite s k m hpos hc hexact _ _ hlt =>
      rw [hexact] at h
      cases h
      exact .inr ⟨k, m, hpos, hc, hlt, rfl⟩
  obtain ⟨n, hn, hchars, hy⟩ := exists_numeral isNegative hunits
  refine ⟨n, hn, ?_, hy⟩
  rw [Number.chars, Decimal.chars, h, Decimal.exactChars, hchars, signChars]
  cases isNegative <;> rfl

/-- **Every finite double is printed as something that is read as a double.** -/
theorem number?_double {x : Float} {isNegative : Bool} {units : Nat}
    (h : Binary.exact x = .finite isNegative units) :
    ∃ y, ∀ more, Apart more →
      number? ((Number.double x).chars ++ more) = some (.double y, more) := by
  obtain ⟨n, hn, hchars, y, hy⟩ := exists_numeral_double h
  refine ⟨y, fun more hmore => ?_⟩
  rw [hchars, List.append_assoc]
  exact number?_numeral hn isNegative hy hmore

/-- What is not finite is printed as nothing. -/
theorem chars_of_not_finite {x : Float}
    (h : ∀ isNegative units, Binary.exact x ≠ .finite isNegative units) :
    (Number.double x).chars = "null".toList := by
  rw [Number.chars, Decimal.chars]
  cases hexact : Binary.exact x with
  | notANumber => rfl
  | infinite isNegative => cases isNegative <;> rfl
  | finite isNegative units => exact absurd hexact (h isNegative units)

end ClosedLoop.Json
