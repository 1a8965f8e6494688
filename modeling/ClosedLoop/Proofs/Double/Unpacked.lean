import ClosedLoop.Proofs.Binary
import Mathlib

namespace ClosedLoop

/-!
# Doubles as mantissas

The arithmetic of doubles works on unpacked numbers: a sign, a mantissa and the exponent of its last
place. Here the patterns of doubles are tied to them: which unpacked number a pattern stands for,
and which pattern an unpacked number is packed into after it was rounded. Rounding keeps two
residual bits of what it cuts off, which is all it needs to find the nearest pattern.

* `Double.Represents` — what a mantissa with its residual bits tells of a quotient;
* `Double.View`, `Double.view` — the exact value, the pattern and the unpacked form of a double;
* `Double.toNat_pack_finite` — a number with the right places is packed into its pattern;
* `Double.toNat_pack_round` — **rounding finds the nearest pattern**.
-/

open Float.Model Float.Model.UnpackedFloat

namespace Double

/-- Double precision. -/
abbrev format : Format := .binary64

/-! ### Residual bits -/

/-- A mantissa with its residual bits is all that rounding needs to know of the quotient
`num / den`: the whole part, whether a half or more is left, and whether what is left is none or a
half. -/
structure Represents (em : ExtendedMantissa) (num den : Nat) : Prop where
  mantissa : em.mantissa = num / den
  roundBit : em.roundBit = decide (den ≤ 2 * (num % den))
  stickyBit : em.stickyBit = decide (2 * (num % den) ≠ 0 ∧ 2 * (num % den) ≠ den)

/-- A whole number has nothing behind its mantissa. -/
theorem represents_exact (m : Nat) :
    Represents (ExtendedMantissa.ofMantissaAndAccuracy m .exact) m 1 := by
  refine ⟨(Nat.div_one m).symm, ?_, ?_⟩
  · simp [ExtendedMantissa.ofMantissaAndAccuracy, Nat.mod_one]
  · simp [ExtendedMantissa.ofMantissaAndAccuracy, Nat.mod_one]

/-- A quotient that was cut off, with the accuracy of its rest, represents the quotient. -/
theorem represents_fraction (num : Nat) {den : Nat} (hden : 0 < den) :
    Represents (ExtendedMantissa.ofMantissaAndAccuracy (num / den)
      (accuracyOfFraction (num % den) den)) num den := by
  have hrest := Nat.mod_lt num hden
  rw [accuracyOfFraction]
  split
  next hzero =>
    refine ⟨rfl, ?_, ?_⟩
    · simpa [ExtendedMantissa.ofMantissaAndAccuracy, hzero] using hden.ne'
    · simp [ExtendedMantissa.ofMantissaAndAccuracy, hzero]
  -- The rest is less than one half, one half or more, and these are the three bits of accuracy.
  next hpos =>
    rcases Nat.lt_trichotomy (2 * (num % den)) den with hlt | heq | hgt
    · rw [Nat.compare_eq_lt.mpr hlt]
      refine ⟨rfl, ?_, ?_⟩ <;> simp [ExtendedMantissa.ofMantissaAndAccuracy] <;> omega
    · rw [Nat.compare_eq_eq.mpr heq]
      refine ⟨rfl, ?_, ?_⟩ <;> simp [ExtendedMantissa.ofMantissaAndAccuracy] <;> omega
    · rw [Nat.compare_eq_gt.mpr hgt]
      refine ⟨rfl, ?_, ?_⟩ <;> simp [ExtendedMantissa.ofMantissaAndAccuracy] <;> omega

namespace Represents

variable {em : ExtendedMantissa} {num den : Nat}

/-- One more place is cut off, and what is cut off shows in the bits behind the mantissa. -/
theorem shiftRightOne (h : Represents em num den) (hden : 0 < den) :
    Represents em.shiftRightOne num (den * 2) := by
  have hrest := Nat.mod_lt num hden
  -- The rest over the doubled denominator is the old rest, with the last place of the mantissa.
  have hmod : num % (den * 2) = num % den + den * (num / den % 2) := Nat.mod_mul
  have hparity := Nat.mod_two_eq_zero_or_one (num / den)
  refine ⟨?_, ?_, ?_⟩
  · rw [ExtendedMantissa.shiftRightOne, h.mantissa, Nat.div_div_eq_div_mul]
  · rw [ExtendedMantissa.shiftRightOne, h.mantissa, hmod, Bool.eq_iff_iff, bne_iff_ne,
      decide_eq_true_iff]
    rcases hparity with hzero | hone
    · rw [hzero, Nat.mul_zero]; omega
    · rw [hone, Nat.mul_one]; omega
  · rw [ExtendedMantissa.shiftRightOne, h.roundBit, h.stickyBit, hmod, ← Bool.decide_or,
      decide_eq_decide]
    rcases hparity with hzero | hone
    · rw [hzero, Nat.mul_zero]; omega
    · rw [hone, Nat.mul_one]; omega

/-- A shift by any number of places divides by the power of two, by induction on them. -/
theorem shiftRight (h : Represents em num den) (hden : 0 < den) (n : Nat) :
    Represents (em >>> n) num (den * 2 ^ n) := by
  show Represents (n.repeat ExtendedMantissa.shiftRightOne em) _ _
  induction n with
  | zero => simpa [Nat.repeat] using h
  | succ n ih =>
    rw [Nat.repeat, Nat.pow_succ, ← Nat.mul_assoc]
    exact ih.shiftRightOne (Nat.mul_pos hden (Nat.two_pow_pos n))

/-- The mantissa is rounded as the quotient is, since the bits behind it tell which half the rest is
    in. -/
theorem roundedMantissa (h : Represents em num den) (hden : 0 < den) :
    em.roundedMantissa = roundHalfEven num den := by
  have hrest := Nat.mod_lt num hden
  obtain ⟨m, r, t⟩ := em
  obtain ⟨hm, hr, ht⟩ := h
  simp only at hm hr ht
  subst hm hr ht
  rw [roundHalfEven]
  -- The rest is in the lower half, at the middle, or in the upper half.
  rcases Nat.lt_trichotomy (2 * (num % den)) den with hlt | heq | hgt
  · have hround : decide (den ≤ 2 * (num % den)) = false := by simpa using hlt
    rw [if_pos hlt, hround]
    generalize decide (2 * (num % den) ≠ 0 ∧ 2 * (num % den) ≠ den) = sticky
    cases sticky <;> rfl
  · have hround : decide (den ≤ 2 * (num % den)) = true := by simp [heq]
    have hsticky : decide (2 * (num % den) ≠ 0 ∧ 2 * (num % den) ≠ den) = false := by simp [heq]
    rw [if_neg (by omega), if_neg (by omega), hround, hsticky]
    rfl
  · have hround : decide (den ≤ 2 * (num % den)) = true := by simpa using hgt.le
    have hsticky : decide (2 * (num % den) ≠ 0 ∧ 2 * (num % den) ≠ den) = true := by
      simp only [decide_eq_true_eq]
      omega
    rw [if_neg (by omega), if_pos hgt, hround, hsticky]
    rfl

end Represents

/-! ### Fields of a pattern -/

/-- The fields of a pattern stand at 63 bits, at 52 bits and at the end. -/
theorem toNat_packComponents {s : Sign} (e : BitVec format.exponentBits)
    (m : BitVec format.mantissaBitsWithoutImplicit) :
    (packComponents format s e m).toNat =
      s.toBitVec.toNat * 2 ^ 63 + e.toNat * 2 ^ 52 + m.toNat := by
  have hm := m.isLt
  have he := e.isLt
  rw [packComponents, BitVec.toNat_append, BitVec.toNat_append,
    ← Nat.shiftLeft_add_eq_or_of_lt hm, ← Nat.shiftLeft_add_eq_or_of_lt he]
  show (s.toBitVec.toNat <<< 11 + e.toNat) <<< 52 + m.toNat = _
  omega

/-- The mantissa is what the last 52 bits hold. -/
theorem toNat_unpackMantissa (b : BitVec format.numBits) :
    (unpackMantissa b).toNat = b.toNat % 2 ^ 52 := by
  simp [unpackMantissa]

/-- The exponent is what the eleven bits before them hold. -/
theorem toNat_unpackExponent (b : BitVec format.numBits) :
    (unpackExponent b).toNat = b.toNat / 2 ^ 52 % 2 ^ 11 := by
  simp [unpackExponent, Nat.shiftRight_eq_div_pow]

/-- The sign is the first bit. -/
theorem toNat_unpackSign (b : BitVec format.numBits) :
    (unpackSign b).toNat = b.toNat / 2 ^ 63 % 2 := by
  simp [unpackSign, Nat.shiftRight_eq_div_pow]

/-- The bit of the positive sign. -/
theorem toNat_positive : Sign.positive.toBitVec.toNat = 0 := rfl

/-- The bit of the negative sign. -/
theorem toNat_negative : Sign.negative.toBitVec.toNat = 1 := rfl

/-- What a sign adds to a pattern. -/
def weight : Sign → Nat
  | .positive => 0
  | .negative => Binary.double.signBit

/-- Is this the sign of negative numbers? -/
def isNegative : Sign → Bool
  | .positive => false
  | .negative => true

/-- What a double is: its pattern, its exact value and its unpacked form. A finite number other than
zero has a mantissa `m` whose last place is `k` places coarser than the smallest. -/
inductive View (x : Float) : Prop
  | notANumber (exact : Binary.exact x = .notANumber) (unpack : x.toModel.unpack = .notANumber)
      (bits : Binary.double.infinityBits < x.toBits.toNat % Binary.double.signBit)
  | infinite (s : Sign) (exact : Binary.exact x = .infinite (isNegative s))
      (unpack : x.toModel.unpack = .infinity s)
      (bits : x.toBits.toNat = weight s + Binary.double.infinityBits)
  | zero (s : Sign) (exact : Binary.exact x = .finite (isNegative s) 0)
      (unpack : x.toModel.unpack = .zero s) (bits : x.toBits.toNat = weight s)
  | finite (s : Sign) (k m : Nat) (pos : 0 < m) (canonical : Binary.double.Canonical k m)
      (exact : Binary.exact x = .finite (isNegative s) (m * 2 ^ k))
      (unpack : x.toModel.unpack = .finite s m (k - 1074) pos)
      (bits : x.toBits.toNat = weight s + (k * 2 ^ 52 + m))
      (lt : k * 2 ^ 52 + m < Binary.double.infinityBits)

/-- Infinity has the largest exponent and no mantissa. -/
theorem infinityBits_eq : Binary.double.infinityBits = 2047 * 2 ^ 52 := by decide

/-- The sign is the bit before all others. -/
theorem signBit_eq : Binary.double.signBit = 2 ^ 63 := by decide

/-- The pattern is that of a sign and a pattern without sign. -/
structure Splits (b : BitVec format.numBits) (s : Sign) (p : Nat) : Prop where
  lt : p < 2 ^ 63
  bits : b.toNat = weight s + p

/-- Every pattern splits into a sign and what is left without it. -/
theorem exists_splits (b : BitVec format.numBits) : ∃ s p, Splits b s p := by
  have hlt : b.toNat < 2 ^ 64 := b.isLt
  rcases Nat.lt_or_ge b.toNat (2 ^ 63) with h | h
  · exact ⟨.positive, b.toNat, h, (Nat.zero_add _).symm⟩
  · refine ⟨.negative, b.toNat - 2 ^ 63, by omega, ?_⟩
    rw [weight, signBit_eq]
    omega

/-- The sign stands above the rest of the pattern. -/
theorem weight_mod (s : Sign) : weight s % 2 ^ 63 = 0 := by
  cases s
  · rw [weight, signBit_eq, Nat.mod_self]
  · rw [weight, Nat.zero_mod]

/-- The sign can be read off above the rest of the pattern. -/
theorem weight_div (s : Sign) {p : Nat} (hp : p < 2 ^ 63) :
    (weight s + p) / 2 ^ 63 % 2 = s.toBitVec.toNat := by
  cases s
  · rw [weight, signBit_eq, toNat_negative]
    omega
  · rw [weight, toNat_positive]
    omega

namespace Splits

variable {b : BitVec format.numBits} {s : Sign} {p : Nat}

/-- Without the sign there is the rest of the pattern. -/
theorem mod_signBit (h : Splits b s p) : b.toNat % Binary.double.signBit = p := by
  have hlt := h.lt
  have hweight := weight_mod s
  rw [h.bits, signBit_eq]
  omega

/-- The mantissa is read from the rest of the pattern. -/
theorem mantissa (h : Splits b s p) : (unpackMantissa b).toNat = p % 2 ^ 52 := by
  have hweight := weight_mod s
  rw [toNat_unpackMantissa, h.bits]
  omega

/-- The exponent is read from the rest of the pattern. -/
theorem exponent (h : Splits b s p) : (unpackExponent b).toNat = p / 2 ^ 52 := by
  have hlt := h.lt
  have hweight := weight_mod s
  rw [toNat_unpackExponent, h.bits]
  omega

/-- The sign that is read is the sign. -/
theorem sign (h : Splits b s p) : Sign.ofBitVec (unpackSign b) = s := by
  have hbit : unpackSign b = s.toBitVec := by
    refine BitVec.eq_of_toNat_eq ?_
    rw [toNat_unpackSign, h.bits, weight_div s h.lt]
  rw [hbit]
  cases s <;> rfl

/-- A pattern is negative if its sign is. -/
theorem negative (h : Splits b s p) : Binary.double.negative b.toNat = isNegative s := by
  rw [Binary.Format.negative, h.bits, signBit_eq, weight_div s h.lt]
  cases s <;> rfl

/-- The largest exponent is that of infinity and of what is not a number. -/
theorem decode (h : Splits b s p) :
    Binary.double.decode b.toNat =
      if p / 2 ^ 52 = 2047 then
        if p % 2 ^ 52 = 0 then .infinite (isNegative s) else .notANumber
      else .finite (isNegative s) (Binary.double.magnitude p) := by
  have hlt := h.lt
  have hweight := weight_mod s
  -- The exponent and the fraction of the format are the fields of the pattern.
  have hfield (n : Nat) : Binary.double.exponent n = n / 2 ^ 52 % 2 ^ 11 := by
    rw [Binary.Format.exponent, Nat.shiftRight_eq_div_pow, Nat.one_shiftLeft]
    rfl
  have hrest (n : Nat) : Binary.double.fraction n = n % 2 ^ 52 := by
    rw [Binary.Format.fraction, Nat.one_shiftLeft]
    rfl
  -- The sign does not reach into either of them.
  have hexp : b.toNat / 2 ^ 52 % 2 ^ 11 = p / 2 ^ 52 := by rw [h.bits]; omega
  have hfrac : b.toNat % 2 ^ 52 = p % 2 ^ 52 := by rw [h.bits]; omega
  have hsame : p / 2 ^ 52 % 2 ^ 11 = p / 2 ^ 52 := by omega
  rw [Binary.Format.decode, Binary.Format.magnitude, Binary.Format.magnitude, h.negative, hfield,
    hrest, hfield, hrest, hexp, hfrac, hsame]
  rfl

/-- An exponent is recognized by the rest of the pattern. -/
theorem exponent_eq_iff (h : Splits b s p) (e : BitVec format.exponentBits) :
    unpackExponent b = e ↔ p / 2 ^ 52 = e.toNat := by
  rw [← BitVec.toNat_inj, h.exponent]

/-- A mantissa is recognized by the rest of the pattern. -/
theorem mantissa_eq_iff (h : Splits b s p) (m : BitVec format.mantissaBitsWithoutImplicit) :
    unpackMantissa b = m ↔ p % 2 ^ 52 = m.toNat := by
  rw [← BitVec.toNat_inj, h.mantissa]

/-- The largest exponent stands for infinity or for what is not a number. -/
theorem unpack_full (h : Splits b s p) (hfull : p / 2 ^ 52 = 2047) :
    UnpackedFloat.unpack format b = if p % 2 ^ 52 = 0 then .infinity s else .notANumber := by
  have hones : unpackExponent b = -1#_ := (h.exponent_eq_iff _).mpr (hfull.trans (by decide))
  rw [UnpackedFloat.unpack]
  simp only [h.sign]
  rw [if_pos hones]
  exact if_congr (h.mantissa_eq_iff _) rfl rfl

/-- Any other exponent is not the largest one. -/
theorem exponent_ne_ones (h : Splits b s p) (hfull : p / 2 ^ 52 ≠ 2047) :
    unpackExponent b ≠ -1#_ := fun hones => by
  have hfield := (h.exponent_eq_iff _).mp hones
  exact hfull (hfield.trans (by decide))

/-- A pattern with nothing but a sign is a zero. -/
theorem unpack_zero (h : Splits b s 0) : UnpackedFloat.unpack format b = .zero s := by
  have hnone : unpackExponent b = 0#_ := (h.exponent_eq_iff _).mpr (by decide)
  have hzero : unpackMantissa b = 0#_ := (h.mantissa_eq_iff _).mpr (by decide)
  rw [UnpackedFloat.unpack]
  simp only [h.sign]
  rw [if_neg (h.exponent_ne_ones (by decide)), if_pos hnone, dif_pos hzero]

/-- Every other double has the mantissa and the last place of its pattern. -/
theorem unpack_finite (h : Splits b s p) (hfull : p / 2 ^ 52 ≠ 2047) {k m : Nat} (hpos : 0 < m)
    (hc : Binary.double.Canonical k m) (hp : p = k * 2 ^ 52 + m) :
    UnpackedFloat.unpack format b = .finite s m (k - 1074) hpos := by
  obtain ⟨hm, hnormal⟩ : m < 2 * 2 ^ 52 ∧ (k ≠ 0 → 2 ^ 52 ≤ m) := ⟨hc.lt, hc.normal⟩
  have hzero : (0#_ : BitVec format.exponentBits).toNat = 0 := by decide
  have hnone : (0#_ : BitVec format.mantissaBitsWithoutImplicit).toNat = 0 := by decide
  have hbias : (format.exponentBias : Int) + format.mantissaBitsWithoutImplicit = 1075 := rfl
  rw [UnpackedFloat.unpack]
  simp only [h.sign]
  rw [if_neg (h.exponent_ne_ones hfull)]
  rcases Nat.lt_or_ge m (2 ^ 52) with hsmall | hlarge
  · -- a mantissa that is not full has the finest last place
    have hk : k = 0 := by
      by_contra hk
      have := hnormal hk
      omega
    subst hk
    have hleast : unpackExponent b = 0#_ := (h.exponent_eq_iff _).mpr (by rw [hzero]; omega)
    have hmantissa : unpackMantissa b ≠ 0#_ := fun hm => by
      have hfield := (h.mantissa_eq_iff _).mp hm
      omega
    rw [if_pos hleast, dif_neg hmantissa]
    congr 1
    · rw [h.mantissa]
      omega
    · rw [h.exponent, hbias]
      omega
  -- A full mantissa has its first place put back in front of the stored ones.
  · have hmore : unpackExponent b ≠ 0#_ := fun hleast => by
      have hfield := (h.exponent_eq_iff _).mp hleast
      rw [hzero] at hfield
      omega
    rw [if_neg hmore]
    congr 1
    · rw [BitVec.toNat_append, ← Nat.shiftLeft_add_eq_or_of_lt (BitVec.isLt _), h.mantissa]
      show 1 <<< 52 + p % 2 ^ 52 = m
      omega
    · rw [h.exponent, hbias]
      omega

end Splits

/-- Every double is of one of the four kinds. -/
theorem view (x : Float) : View x := by
  obtain ⟨s, p, h⟩ := exists_splits x.toModel.toBits.toBitVec
  have hbits : x.toBits.toNat = weight s + p := h.bits
  have hexact : Binary.exact x = _ := h.decode
  by_cases hfull : p / 2 ^ 52 = 2047
  -- The largest exponent is kept for what is not finite.
  · have hunpack := h.unpack_full hfull
    rw [if_pos hfull] at hexact
    by_cases hnone : p % 2 ^ 52 = 0
    · rw [if_pos hnone] at hexact hunpack
      refine .infinite s hexact hunpack ?_
      rw [hbits, infinityBits_eq]
      omega
    · rw [if_neg hnone] at hexact hunpack
      have hrest : x.toBits.toNat % Binary.double.signBit = p := h.mod_signBit
      refine .notANumber hexact hunpack ?_
      rw [hrest, infinityBits_eq]
      omega
  -- Every other pattern has a mantissa and a last place, and is a zero exactly if the mantissa is.
  · rw [if_neg hfull] at hexact
    have hlt := h.lt
    obtain ⟨k, m, hc, hpm, hmag⟩ := Binary.Format.exists_canonical (h.lt.trans_eq signBit_eq.symm)
    have hm : m < 2 * 2 ^ 52 := hc.lt
    have hnormal : k ≠ 0 → 2 ^ 52 ≤ m := hc.normal
    have hp : p = k * 2 ^ 52 + m := hpm
    rw [hmag] at hexact
    rcases Nat.eq_zero_or_pos m with rfl | hpos
    · have hk : k = 0 := by
        by_contra hk
        have := hnormal hk
        omega
      obtain rfl : p = 0 := by omega
      exact .zero s (by rw [hexact, Nat.zero_mul]) h.unpack_zero hbits
    · refine .finite s k m hpos hc hexact (h.unpack_finite hfull hpos hc hp) (by rw [hbits, hp]) ?_
      rw [infinityBits_eq]
      omega

/-! ### Packing -/

/-- The pattern of infinity with a sign. -/
theorem toNat_packedInfinity (s : Sign) :
    (packedInfinity format s).toNat = weight s + Binary.double.infinityBits := by
  cases s <;> decide

/-- The pattern of a zero with a sign. -/
theorem toNat_packedZero (s : Sign) : (packedZero format s).toNat = weight s := by
  cases s <;> decide

/-- There are 2048 exponents. -/
theorem exponents_eq : 2 ^ format.exponentBits = 2048 := by decide

/-- The mantissa is stored in 52 places. -/
theorem fractionBits_eq : format.mantissaBitsWithoutImplicit = 52 := rfl

/-- A full mantissa leaves its first place out, and a smaller one has no exponent. -/
theorem pack_finite {s : Sign} {k m : Nat} (hpos : 0 < m) :
    UnpackedFloat.pack format (.finite s m (k - 1074) hpos) =
      if 2 ^ format.exponentBits ≤ k + 1 + 1 then packedInfinity format s
      else if m.log2 + 1 = 53 then
        packComponents format s (BitVec.ofNat _ (k + 1)) (BitVec.ofNat _ m)
      else packComponents format s (BitVec.ofNat _ 0) (BitVec.ofNat _ m) := by
  -- The stored exponent is one more than that of the last place.
  have hfield :
      ((k : Int) - 1074 + format.exponentBias + format.mantissaBitsWithoutImplicit).toNat =
      k + 1 := by
    have hbias : (format.exponentBias : Int) + format.mantissaBitsWithoutImplicit = 1075 := rfl
    rw [Int.add_assoc, hbias]
    omega
  rw [UnpackedFloat.pack, hfield]
  rfl

/-- A number that is not negative is packed into its pattern, or into infinity if it has none. -/
theorem toNat_pack_finite {k m : Nat} (hc : Binary.double.Canonical k m) (hpos : 0 < m) :
    (UnpackedFloat.pack format (.finite .positive m (k - 1074) hpos)).toNat =
      min Binary.double.infinityBits (k * 2 ^ 52 + m) := by
  obtain ⟨hm, hnormal⟩ : m < 2 * 2 ^ 52 ∧ (k ≠ 0 → 2 ^ 52 ≤ m) := ⟨hc.lt, hc.normal⟩
  rw [pack_finite, infinityBits_eq, exponents_eq]
  by_cases hlarge : 2048 ≤ k + 1 + 1
  · -- such a mantissa is full, and its pattern is not below that of infinity
    have hfull := hnormal (by omega)
    rw [if_pos hlarge, toNat_packedInfinity, weight, infinityBits_eq]
    omega
  · rw [if_neg hlarge]
    by_cases hfull : 2 ^ 52 ≤ m
    · have hlog : m.log2 = 52 := (Nat.log2_eq_iff hpos.ne').mpr ⟨hfull, by omega⟩
      rw [if_pos (by omega), toNat_packComponents, BitVec.toNat_ofNat, BitVec.toNat_ofNat,
        exponents_eq, fractionBits_eq, toNat_positive]
      omega
    · have hlog : m.log2 < 52 := (Nat.log2_lt hpos.ne').mpr (by omega)
      have hk : k = 0 := by
        by_contra hk
        have := hnormal hk
        omega
      rw [if_neg (by omega), toNat_packComponents, BitVec.toNat_ofNat, BitVec.toNat_ofNat,
        exponents_eq, fractionBits_eq, toNat_positive]
      omega

/-! ### Rounding -/

/-- The exponent of the last place that a mantissa is rounded to. -/
theorem targetExponent_eq (m : Nat) (e : Int) :
    format.targetExponent (totalExponent m e) = max (m.log2 + e - 52) (-1074) := by
  have hbits : (format.mantissaBits : Int) = 53 := rfl
  have hleast : format.minExponent = -1074 := rfl
  rw [totalExponent, Format.targetExponent, hbits, hleast]
  omega

/-- Raising an exponent cuts off as many places as it is raised by. -/
theorem shiftToExponent_eq {m : Nat} {e t : Int} {accuracy : Accuracy} {n : Nat}
    (h : t - e = n) :
    shiftToExponent m e accuracy t =
      (ExtendedMantissa.ofMantissaAndAccuracy m accuracy >>> n, t) := by
  have hshift : (t - e).toNat = n := by omega
  rw [shiftToExponent]
  simp only [hshift]
  refine Prod.ext rfl ?_
  show e + (n : Int) = t
  omega

/-- A mantissa that has its places keeps them. -/
theorem shiftToTargetExponent_of_canonical {k m : Nat} (hc : Binary.double.Canonical k m) :
    shiftToTargetExponent format m (k - 1074) .exact = (⟨m, false, false⟩, (k : Int) - 1074) := by
  obtain ⟨hm, hnormal⟩ : m < 2 * 2 ^ 52 ∧ (k ≠ 0 → 2 ^ 52 ≤ m) := ⟨hc.lt, hc.normal⟩
  -- The mantissa has at most 53 places, so its exponent need not be raised.
  have hlog : m.log2 ≤ 52 := by
    rcases Nat.eq_zero_or_pos m with rfl | hpos
    · decide
    · have := (Nat.log2_lt (k := 53) hpos.ne').mpr (by omega)
      omega
  have htarget : format.targetExponent (totalExponent m (k - 1074)) ≤ k - 1074 := by
    rw [targetExponent_eq]
    omega
  have hshift : (format.targetExponent (totalExponent m (k - 1074)) - (k - 1074)).toNat = 0 := by
    omega
  rw [shiftToTargetExponent, shiftToExponent]
  simp only [hshift]
  show ((⟨m, false, false⟩ : ExtendedMantissa), (k : Int) - 1074 + 0) = _
  rw [Int.add_zero]

/-- A mantissa that is one place too long loses its last place, which is empty. -/
theorem shiftToTargetExponent_full (k : Nat) :
    shiftToTargetExponent format (2 ^ 53) (k - 1074) .exact =
      (⟨2 ^ 52, false, false⟩, ((k + 1 : Nat) : Int) - 1074) := by
  have htarget : format.targetExponent (totalExponent (2 ^ 53) (k - 1074)) =
      ((k + 1 : Nat) : Int) - 1074 := by
    rw [targetExponent_eq, Nat.log2_two_pow]
    omega
  rw [shiftToTargetExponent, htarget, shiftToExponent_eq (n := 1) (by omega)]
  rfl

/-- How coarse a quotient is after its exponent was shifted. -/
theorem coarseness_shifted {num den : Nat} (hden : 0 < den) {i j : Nat}
    (h : num / den ≠ 0 ∨ i ≤ j) :
    Binary.double.coarseness (num * 2 ^ i / (den * 2 ^ j)) = (num / den).log2 + i - (j + 52) := by
  have hplaces : 0 < den * 2 ^ j := Nat.mul_pos hden (Nat.two_pow_pos j)
  show (num * 2 ^ i / (den * 2 ^ j)).log2 - 52 = _
  by_cases hzero : num / den = 0
  · -- there is nothing to shift
    have hnum : num < den := (Nat.div_eq_zero_iff_lt hden).mp hzero
    have hij : i ≤ j := h.resolve_left fun hne => hne hzero
    have hlt : num * 2 ^ i < den * 2 ^ j :=
      Nat.lt_of_lt_of_le (Nat.mul_lt_mul_of_pos_right hnum (Nat.two_pow_pos i))
        (Nat.mul_le_mul_left _ (Nat.pow_le_pow_right (by decide) hij))
    rw [Nat.div_eq_of_lt hlt, hzero, Nat.log2_zero]
    omega
  · generalize hlog : (num / den).log2 = l
    have hlower : 2 ^ l * den ≤ num :=
      -- The quotient lies between two powers of two, and shifting moves both bounds.
      (Nat.le_div_iff_mul_le hden).mp (hlog ▸ Nat.log2_self_le hzero)
    have hupper : num < 2 ^ (l + 1) * den :=
      (Nat.div_lt_iff_lt_mul hden).mp (hlog ▸ Nat.lt_log2_self)
    rcases Nat.lt_or_ge (l + i) j with hsmall | hlarge
    -- All places are shifted out.
    · have hlt : num * 2 ^ i < den * 2 ^ j :=
        calc num * 2 ^ i < 2 ^ (l + 1) * den * 2 ^ i :=
              Nat.mul_lt_mul_of_pos_right hupper (Nat.two_pow_pos i)
          _ = den * 2 ^ (l + i + 1) := by ring
          _ ≤ den * 2 ^ j := Nat.mul_le_mul_left _ (Nat.pow_le_pow_right (by decide) hsmall)
      rw [Nat.div_eq_of_lt hlt, Nat.log2_zero]
      omega
    · obtain ⟨d, hd⟩ : ∃ d, l + i = j + d := ⟨l + i - j, by omega⟩
      -- The shifted quotient keeps the place of its first digit, but for the shift.
      have hle : 2 ^ d ≤ num * 2 ^ i / (den * 2 ^ j) := by
        refine (Nat.le_div_iff_mul_le hplaces).mpr ?_
        calc 2 ^ d * (den * 2 ^ j) = den * 2 ^ (j + d) := by ring
          _ = 2 ^ l * den * 2 ^ i := by rw [← hd]; ring
          _ ≤ num * 2 ^ i := Nat.mul_le_mul_right _ hlower
      have hlt : num * 2 ^ i / (den * 2 ^ j) < 2 ^ (d + 1) := by
        refine (Nat.div_lt_iff_lt_mul hplaces).mpr ?_
        calc num * 2 ^ i < 2 ^ (l + 1) * den * 2 ^ i :=
              Nat.mul_lt_mul_of_pos_right hupper (Nat.two_pow_pos i)
          _ = den * 2 ^ (l + i + 1) := by ring
          _ = 2 ^ (d + 1) * (den * 2 ^ j) := by rw [hd]; ring
      have hpos : num * 2 ^ i / (den * 2 ^ j) ≠ 0 :=
        (Nat.lt_of_lt_of_le (Nat.two_pow_pos d) hle).ne'
      rw [(Nat.log2_eq_iff hpos).mpr ⟨hle, hlt⟩]
      omega

/-- The pattern of a mantissa that was rounded: a carry is a mantissa of half the size with a last
place twice as coarse. -/
theorem toNat_pack_rounded {k r : Nat} (hle : r ≤ 2 ^ 53) (hnormal : k ≠ 0 → 2 ^ 52 ≤ r)
    {em : ExtendedMantissa} {e : Int}
    (h : shiftToTargetExponent format r (k - 1074) .exact = (em, e)) :
    (UnpackedFloat.pack format (if h : em.mantissa = 0 then .zero .positive
      else .finite .positive em.mantissa e (Nat.pos_of_ne_zero h))).toNat =
        min Binary.double.infinityBits (k * 2 ^ 52 + r) := by
  rcases Nat.lt_or_eq_of_le hle with hlt | rfl
  -- There is no carry, and the mantissa is packed as it is.
  · have hc : Binary.double.Canonical k r :=
      ⟨Nat.lt_of_lt_of_eq hlt (by decide), hnormal⟩
    rw [shiftToTargetExponent_of_canonical hc] at h
    cases h
    rcases Nat.eq_zero_or_pos r with rfl | hpos
    · have hk : k = 0 := by
        by_contra hk
        exact absurd (hnormal hk) (by decide)
      subst hk
      exact (toNat_packedZero .positive).trans (by decide)
    · rw [dif_neg hpos.ne']
      exact toNat_pack_finite hc hpos
  -- A carry makes the mantissa a power of two, which is half as long with a coarser last place.
  · have hc : Binary.double.Canonical (k + 1) (2 ^ 52) := ⟨by decide, fun _ => Nat.le_refl _⟩
    rw [shiftToTargetExponent_full] at h
    cases h
    have hpos : 0 < 2 ^ 52 := Nat.two_pow_pos 52
    rw [dif_neg hpos.ne', toNat_pack_finite hc hpos, Nat.add_mul, Nat.one_mul, Nat.add_assoc,
      ← Nat.two_pow_succ]

/-- A quotient is rounded to the places of a mantissa, or to one more than all of them. -/
theorem roundHalfEven_le_full {num den n : Nat} (hden : 0 < den) (h : (num / den).log2 ≤ 52 + n) :
    roundHalfEven num (den * 2 ^ n) ≤ 2 ^ 53 := by
  have hupper : num < 2 ^ ((num / den).log2 + 1) * den :=
    (Nat.div_lt_iff_lt_mul hden).mp Nat.lt_log2_self
  refine roundHalfEven_le (Nat.mul_pos hden (Nat.two_pow_pos n)) (hupper.le.trans ?_)
  calc 2 ^ ((num / den).log2 + 1) * den ≤ 2 ^ (53 + n) * den :=
        Nat.mul_le_mul_right _ (Nat.pow_le_pow_right (by decide) (by omega))
    _ = 2 ^ 53 * (den * 2 ^ n) := by ring

/-- Rounding a quotient that fills its places does not make it shorter. -/
theorem full_le_roundHalfEven {num den n : Nat} (hden : 0 < den) (hpos : num / den ≠ 0)
    (h : (num / den).log2 = 52 + n) : 2 ^ 52 ≤ roundHalfEven num (den * 2 ^ n) := by
  have hlower : 2 ^ (num / den).log2 * den ≤ num :=
    (Nat.le_div_iff_mul_le hden).mp (Nat.log2_self_le hpos)
  refine le_roundHalfEven (Nat.mul_pos hden (Nat.two_pow_pos n)) ?_
  calc 2 ^ 52 * (den * 2 ^ n) = 2 ^ (52 + n) * den := by ring
    _ ≤ num := by rw [← h]; exact hlower

/-- **Rounding finds the nearest pattern.** The mantissa is the quotient `num / den` as far as it is
whole, with the residual bits of the rest, and its last place is `i - j` places coarser than the
smallest. -/
theorem toNat_pack_round {m : Nat} {e : Int} {accuracy : Accuracy} {num den : Nat} (hden : 0 < den)
    (h : Represents (ExtendedMantissa.ofMantissaAndAccuracy m accuracy) num den)
    (hm : m = num / den)
    (he : e ≤ format.targetExponent (totalExponent m e)) {i j : Nat} (hij : e + 1074 = i - j) :
    (UnpackedFloat.pack format (roundWithAccuracy format .positive m e accuracy)).toNat =
      Binary.double.nearestUnits (num * 2 ^ i) (den * 2 ^ j) := by
  have htarget := targetExponent_eq m e
  obtain ⟨k, hk⟩ : ∃ k : Nat, format.targetExponent (totalExponent m e) = (k : Int) - 1074 :=
    ⟨(format.targetExponent (totalExponent m e) + 1074).toNat, by omega⟩
  obtain ⟨n, hn⟩ : ∃ n : Nat, (k : Int) - 1074 - e = n := ⟨((k : Int) - 1074 - e).toNat, by omega⟩
  have hlog : m = 0 → m.log2 = 0 := fun hzero => by rw [hzero, Nat.log2_zero]
  have hplaces : 0 < den * 2 ^ n := Nat.mul_pos hden (Nat.two_pow_pos n)
  have hround := (h.shiftRight hden n).roundedMantissa hplaces
  have hfirst : shiftToTargetExponent format m e accuracy =
      (ExtendedMantissa.ofMantissaAndAccuracy m accuracy >>> n, (k : Int) - 1074) := by
    rw [shiftToTargetExponent, hk, shiftToExponent_eq hn]
  -- the quotient in units has the same last place, and is rounded to the same mantissa
  have hcoarse : Binary.double.coarseness (num * 2 ^ i / (den * 2 ^ j)) = k := by
    rw [coarseness_shifted hden (by omega), ← hm]
    omega
  have hsame : roundHalfEven (num * 2 ^ i) (den * 2 ^ j * 2 ^ k) =
      roundHalfEven num (den * 2 ^ n) := by
    have hexponents : i + n = j + k := by omega
    refine roundHalfEven_congr (Nat.mul_pos (Nat.mul_pos hden (Nat.two_pow_pos j))
      (Nat.two_pow_pos k)) hplaces ?_
    calc num * 2 ^ i * (den * 2 ^ n) = num * den * 2 ^ (i + n) := by ring
      _ = num * (den * 2 ^ j * 2 ^ k) := by rw [hexponents]; ring
  have hfull : roundHalfEven num (den * 2 ^ n) ≤ 2 ^ 53 :=
    roundHalfEven_le_full hden (by rw [← hm]; omega)
  have hnormal : k ≠ 0 → 2 ^ 52 ≤ roundHalfEven num (den * 2 ^ n) := fun hk0 => by
    have hpos : m ≠ 0 := fun hzero => by
      have := hlog hzero
      omega
    exact full_le_roundHalfEven hden (hm ▸ hpos) (by rw [← hm]; omega)
  rw [Binary.Format.nearestUnits, hcoarse, hsame, roundWithAccuracy, hfirst]
  simp only [hround]
  exact toNat_pack_rounded hfull hnormal rfl

end Double

end ClosedLoop
