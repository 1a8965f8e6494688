import ClosedLoop.Proofs.Double.Arithmetic

namespace ClosedLoop

/-!
# Differences and signs of doubles

A difference of doubles in their order is the exact difference rounded once, so it is no larger than
the first of them. A product of two numbers from zero down is not negative. Only a zero times
infinity is not a number.

* `Double.HasPattern.sub`, `Double.HasPattern.sub_le` — differences of numbers in their order;
* `Double.zero_le_neg_mul` — **the product of a negative number with one that is not positive**;
* `Double.HasPattern.mul_share` — a share of a number is no larger than the number;
* `Double.HasPattern.isNaN_eq_false`, `Double.HasPattern.isNaN_infinite_mul_zero` — what is a number
  and what is not.
-/

open Float.Model Float.Model.UnpackedFloat

namespace Double

variable {x y : Float} {p q : Nat}

/-! ### What is a number -/

/-- A double with such a pattern is a number. -/
theorem HasPattern.isNaN_eq_false (h : HasPattern x p) : x.isNaN = false := by
  show x.toModel.unpack.isNaN = false
  rcases h.cases with ⟨-, s, -, hu⟩ | ⟨k, m, hpos, -, -, -, -, hu⟩ | ⟨-, -, hu⟩ <;> rw [hu] <;> rfl

/-- What is packed as no number is none. -/
theorem isNaN_packed : (Float.ofModel (Float.Model.pack .notANumber)).isNaN = true := by decide

/-- Infinity has no share of zero. -/
theorem HasPattern.isNaN_infinite_mul_zero (hx : HasPattern x Binary.double.infinityBits)
    (hy : HasPattern y 0) : (x * y).isNaN = true := by
  have hres : x * y = Float.ofModel (Float.Model.pack
    (UnpackedFloat.mul format x.toModel.unpack y.toModel.unpack)) := rfl
  rw [hres, hx.unpack_infinity]
  rcases hy.cases with ⟨-, s, -, hu⟩ | ⟨k, m, hpos, -, hzero, -⟩ | ⟨hzero, -⟩
  · rw [hu]
    exact isNaN_packed
  · omega
  · exact absurd hzero (by decide)

/-! ### Shares -/

/-- A share of a finite number is no larger than the number. -/
theorem HasPattern.mul_share (hx : HasPattern x p) (hy : HasPattern y q)
    (hp : p < Binary.double.infinityBits) (hq : q < Binary.double.infinityBits)
    (hshare : Binary.double.magnitude q ≤ Binary.double.unitsPerOne) :
    HasPattern (x * y) (Binary.double.product p q) ∧ Binary.double.product p q ≤ p := by
  have hone := Binary.Format.unitsPerOne_pos Binary.double
  refine ⟨hx.mul hy hp hq, Binary.Format.nearest_le (Nat.mul_pos hone hone) hx.lt_signBit ?_⟩
  rw [Nat.mul_assoc]
  exact Nat.mul_le_mul_left _ (Nat.mul_le_mul_right _ hshare)

/-! ### Differences -/

/-- The difference of two mantissas with the finer of their last places. -/
theorem sub_finite {k m k' m' : Nat} (hpos : 0 < m) (hpos' : 0 < m') :
    UnpackedFloat.sub format (.finite .positive m (k - 1074) hpos)
        (.finite .positive m' (k' - 1074) hpos') =
      UnpackedFloat.normalize format
        (((m * 2 ^ (k - min k k') : Nat) : Int) - (m' * 2 ^ (k' - min k k') : Nat))
        ((min k k' : Nat) - 1074) .positive := by
  have hmin : min ((k : Int) - 1074) (k' - 1074) = (min k k' : Nat) - 1074 := by omega
  have hfirst : ((k : Int) - 1074 - ((min k k' : Nat) - 1074)).toNat = k - min k k' := by omega
  have hsecond : ((k' : Int) - 1074 - ((min k k' : Nat) - 1074)).toNat = k' - min k k' := by omega
  rw [UnpackedFloat.sub, hmin]
  simp only [decreaseExponent, hfirst, hsecond, Nat.shiftLeft_eq, Sign.apply]

/-- The exact difference of numbers in their order is rounded once. -/
theorem HasPattern.sub (hx : HasPattern x p) (hy : HasPattern y q)
    (hp : p < Binary.double.infinityBits) (hle : q ≤ p) :
    HasPattern (x - y) (Binary.double.nearest
      (Binary.double.magnitude p - Binary.double.magnitude q) Binary.double.unitsPerOne) := by
  have hone := Binary.Format.unitsPerOne_pos Binary.double
  have hres : x - y = Float.ofModel (Float.Model.pack
    (UnpackedFloat.sub format x.toModel.unpack y.toModel.unpack)) := rfl
  have horder := Binary.Format.magnitude_mono hle hx.lt_signBit
  rw [hres]
  -- The larger of the two is zero, finite or infinite; the smaller one cannot exceed it.
  rcases hx.cases with ⟨rfl, s, -, hu⟩ | ⟨k, m, hpos, hc, rfl, hlt, -, hu⟩ | ⟨rfl, -⟩
  · rw [magnitude_zero, Nat.zero_sub, nearest_zero hone, hu]
    rcases hy.cases with ⟨rfl, s', -, hu'⟩ | ⟨k', m', hpos', -, rfl, -⟩ | ⟨rfl, -⟩
    · rw [hu']
      cases s <;> cases s' <;> exact hasPattern_packedZero _
    · omega
    · exact absurd hle (by decide)
  · rcases hy.cases with ⟨rfl, s', -, hu'⟩ | ⟨k', m', hpos', hc', rfl, hlt', -, hu'⟩ | ⟨rfl, -⟩
    · rw [magnitude_zero, Nat.sub_zero, nearest_magnitude hp.le, hu, hu']
      exact ⟨hlt.le, .inl (by
        rw [toBits_pack]
        exact (toNat_pack_finite hc hpos).trans (Nat.min_eq_right hlt.le))⟩
    -- Both numbers are put on the finer of their last places, where their mantissas are subtracted.
    · rw [magnitude_canonical hc hlt, magnitude_canonical hc' hlt'] at horder ⊢
      rw [hu, hu', sub_finite]
      have hfirst : m * 2 ^ k = m * 2 ^ (k - min k k') * 2 ^ min k k' := by
        rw [Nat.mul_assoc, ← Nat.pow_add, Nat.sub_add_cancel (Nat.min_le_left k k')]
      have hsecond : m' * 2 ^ k' = m' * 2 ^ (k' - min k k') * 2 ^ min k k' := by
        rw [Nat.mul_assoc, ← Nat.pow_add, Nat.sub_add_cancel (Nat.min_le_right k k')]
      rw [hfirst, hsecond] at horder ⊢
      rw [← Nat.sub_mul]
      have hmantissas := Nat.le_of_mul_le_mul_right horder (Nat.two_pow_pos _)
      generalize m * 2 ^ (k - min k k') = a at *
      generalize m' * 2 ^ (k' - min k k') = b at *
      rw [← Nat.cast_sub hmantissas]
      rcases Nat.eq_zero_or_pos (a - b) with hzero | hdiff
      · rw [hzero, Nat.zero_mul, nearest_zero hone]
        exact hasPattern_packedZero .positive
      · exact hasPattern_normalize hdiff
    · exact absurd (Nat.lt_of_le_of_lt hle hp) (Nat.lt_irrefl _)
  · exact absurd hp (Nat.lt_irrefl _)

/-- A difference of numbers in their order is not negative and no larger than the first. -/
theorem HasPattern.sub_le (hx : HasPattern x p) (hy : HasPattern y q)
    (hp : p < Binary.double.infinityBits) (hle : q ≤ p) : ∃ r ≤ p, HasPattern (x - y) r := by
  refine ⟨_, ?_, hx.sub hy hp hle⟩
  exact Binary.Format.nearest_le (Binary.Format.unitsPerOne_pos _) hx.lt_signBit
    (Nat.mul_le_mul_right _ (Nat.sub_le _ _))

/-! ### Products of negative numbers -/

/-- A negative number is packed into the pattern of the positive one with the sign. -/
theorem toNat_pack_negative {k m : Nat} (hpos : 0 < m) :
    (UnpackedFloat.pack format (.finite .negative m (k - 1074) hpos)).toNat =
      Binary.double.signBit +
        (UnpackedFloat.pack format (.finite .positive m (k - 1074) hpos)).toNat := by
  rw [pack_finite, pack_finite]
  split
  · rw [toNat_packedInfinity, toNat_packedInfinity, weight, weight, Nat.zero_add]
  · split <;> rw [toNat_packComponents, toNat_packComponents, toNat_negative, toNat_positive,
      signBit_eq] <;> omega

/-- The negative of a positive finite number. -/
theorem unpack_neg {k m : Nat} {hpos : 0 < m} (hc : Binary.double.Canonical k m)
    (hlt : k * 2 ^ 52 + m < Binary.double.infinityBits)
    (hu : x.toModel.unpack = .finite .positive m (k - 1074) hpos) :
    (-x).toModel.unpack = .finite .negative m (k - 1074) hpos := by
  -- The pattern of the negative is that of the number with the sign set.
  have hfull := infinityBits_eq ▸ hlt
  have hbits : (-x).toBits.toNat = weight .negative + (k * 2 ^ 52 + m) := by
    show (UnpackedFloat.pack format x.toModel.unpack.neg).toNat = _
    rw [hu, UnpackedFloat.neg]
    refine (toNat_pack_negative hpos).trans ?_
    rw [toNat_pack_finite hc hpos, Nat.min_eq_right hlt.le]
    rfl
  have hsplits : Splits (-x).toModel.toBits.toBitVec .negative (k * 2 ^ 52 + m) :=
    ⟨by omega, hbits⟩
  exact hsplits.unpack_finite (by omega) hpos hc rfl

/-- **The product of a negative finite number with one that is not positive is not negative.** -/
theorem zero_le_neg_mul (hx : 0 < x) (hfinite : x.isFinite = true) (hy : y ≤ 0) : 0 ≤ -x * y := by
  have hres : -x * y = Float.ofModel (Float.Model.pack
    (UnpackedFloat.mul format (-x).toModel.unpack y.toModel.unpack)) := rfl
  obtain ⟨p, hp, hxp⟩ := zero_lt_iff.mp hx
  rw [zero_le_iff, hres]
  rcases hxp.cases with ⟨hzero, -⟩ | ⟨k, m, hpos, hc, rfl, hlt, -, hu⟩ | ⟨rfl, -⟩
  · omega
  · rw [unpack_neg hc hlt hu]
    rw [le_iff_compare] at hy
    -- The other factor is a zero or negative, so the signs cancel or the product is a zero.
    cases view y with
    | notANumber _ hu' =>
      rw [hu'] at hy
      cases hy
    | infinite s _ hu' =>
      rw [hu'] at hy ⊢
      cases s
      · exact ⟨_, hasPattern_packedInfinity⟩
      · cases hy
    | zero s _ hu' =>
      rw [hu']
      exact ⟨0, hasPattern_packedZero _⟩
    | finite s k' m' hpos' hc' _ hu' =>
      rw [hu'] at hy ⊢
      cases s
      · exact ⟨_, hasPattern_mulFinite hpos hpos' hc hc'⟩
      · cases hy
  · exact absurd (hxp.isFinite_iff.mp hfinite) (Nat.lt_irrefl _)

end Double

end ClosedLoop
