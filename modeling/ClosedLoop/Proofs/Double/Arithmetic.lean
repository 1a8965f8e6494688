import ClosedLoop.Proofs.Double.Order

namespace ClosedLoop

/-!
# The arithmetic of doubles

Sums, products and quotients of doubles that are not negative are the exact results rounded once, to
the nearest pattern, and what is beyond the largest number is infinite. So they keep the order of
their operands.

* `Double.HasPattern.add`, `Double.HasPattern.mul`, `Double.HasPattern.div` — **operations on
  doubles are operations on patterns**, each rounded once;
* `Double.isFinite_of_add` — a finite sum has finite terms;
* `Double.hasPattern_ofWhole` — whole numbers as doubles;
* `Double.Grows.add`, `Double.Grows.mul`, `Double.Grows.div` — **operations keep the order**.
-/

open Float.Model Float.Model.UnpackedFloat

namespace Double

/-! ### Rounded results -/

/-- The pattern of a packed number is what it is packed into. -/
theorem toBits_pack (u : UnpackedFloat) :
    (Float.ofModel (Float.Model.pack u)).toBits.toNat = (UnpackedFloat.pack format u).toNat := rfl

/-- The number is named, since the power is too large to be written out. -/
theorem exists_unitsPerOne : ∃ places, places = 1074 ∧ Binary.double.unitsPerOne = 2 ^ places :=
  ⟨(1 <<< (Binary.double.exponentBits - 1)) - 2 + Binary.double.fractionBits, by decide,
    Nat.one_shiftLeft _⟩

/-- A zero of either sign counts as no pattern at all. -/
theorem hasPattern_packedZero (s : Sign) :
    HasPattern (Float.ofModel (Float.Model.pack (.zero s))) 0 := by
  refine ⟨Nat.zero_le _, ?_⟩
  rw [toBits_pack]
  cases s
  · exact .inr ⟨rfl, toNat_packedZero .negative⟩
  · exact .inl (toNat_packedZero .positive)

/-- Positive infinity has the pattern of infinity. -/
theorem hasPattern_packedInfinity :
    HasPattern (Float.ofModel (Float.Model.pack (.infinity .positive)))
      Binary.double.infinityBits :=
  ⟨Nat.le_refl _, .inl ((toBits_pack _).trans ((toNat_packedInfinity .positive).trans
    (Nat.zero_add _)))⟩

/-- What was rounded is the double nearest to the quotient. -/
theorem hasPattern_round {m : Nat} {e : Int} {accuracy : Accuracy} {n d : Nat} (hd : 0 < d)
    (h : Represents (ExtendedMantissa.ofMantissaAndAccuracy m accuracy) n d) (hm : m = n / d)
    (he : e ≤ format.targetExponent (totalExponent m e)) {i j : Nat} (hij : e + 1074 = i - j)
    {num den : Nat} (hden : 0 < den)
    (heq : num * Binary.double.unitsPerOne * (d * 2 ^ j) = n * 2 ^ i * den) :
    HasPattern (Float.ofModel (Float.Model.pack (roundWithAccuracy format .positive m e accuracy)))
      (Binary.double.nearest num den) := by
  refine ⟨Nat.min_le_left _ _, .inl ?_⟩
  rw [toBits_pack, toNat_pack_round hd h hm he hij, Binary.Format.nearest_eq_nearestUnits]
  exact Binary.Format.nearestUnits_congr (Nat.mul_pos hd (Nat.two_pow_pos j)) hden heq.symm

/-- The exact value of a pattern in units of the smallest number. -/
theorem magnitude_canonical {k m : Nat} (hc : Binary.double.Canonical k m)
    (hlt : k * 2 ^ 52 + m < Binary.double.infinityBits) :
    Binary.double.magnitude (k * 2 ^ 52 + m) = m * 2 ^ k :=
  hc.magnitude_eq (Nat.lt_trans hlt Binary.double.infinityBits_lt_signBit)

/-- Zero is rounded to zero. -/
theorem nearest_zero {den : Nat} (hden : 0 < den) : Binary.double.nearest 0 den = 0 :=
  Nat.le_zero.mp <|
    Binary.Format.nearest_le hden (by decide) (by rw [Nat.zero_mul]; exact Nat.zero_le _)

/-- A number that has a pattern is rounded to it. -/
theorem nearest_magnitude {p : Nat} (hp : p ≤ Binary.double.infinityBits) :
    Binary.double.nearest (Binary.double.magnitude p) Binary.double.unitsPerOne = p := by
  have hsign := Nat.lt_of_le_of_lt hp Binary.double.infinityBits_lt_signBit
  have hone := Binary.Format.unitsPerOne_pos Binary.double
  exact Nat.le_antisymm (Binary.Format.nearest_le hone hsign (Nat.le_refl _))
    (Binary.Format.le_nearest hone hsign hp (Nat.le_refl _))

/-- The pattern of zero has no units. -/
theorem magnitude_zero : Binary.double.magnitude 0 = 0 := by decide

/-- Every pattern but the first stands for a positive number. -/
theorem magnitude_pos {p : Nat} (hpos : 0 < p) (hp : p < Binary.double.signBit) :
    0 < Binary.double.magnitude p :=
  Nat.lt_of_lt_of_le (by decide) (Binary.Format.magnitude_mono (a := 1) hpos hp)

/-- Shifting a number moves its first place. -/
theorem log2_mul_two_pow {m : Nat} (hm : m ≠ 0) (n : Nat) : (m * 2 ^ n).log2 = m.log2 + n := by
  refine (Nat.log2_eq_iff (Nat.mul_ne_zero hm (Nat.two_pow_pos n).ne')).mpr ⟨?_, ?_⟩
  · rw [Nat.pow_add]
    exact Nat.mul_le_mul_right _ (Nat.log2_self_le hm)
  · rw [Nat.add_right_comm, Nat.pow_add]
    exact Nat.mul_lt_mul_of_pos_right Nat.lt_log2_self (Nat.two_pow_pos n)

/-- A quotient with enough places in its mantissa is rounded once. -/
theorem hasPattern_divCore {k m k' m' : Nat} (hpos : 0 < m) (hpos' : 0 < m') :
    HasPattern (Float.ofModel (Float.Model.pack
        (UnpackedFloat.roundWithAccuracy format .positive
          (divCore format m (k - 1074) m' (k' - 1074)).1
          (divCore format m (k - 1074) m' (k' - 1074)).2.1
          (divCore format m (k - 1074) m' (k' - 1074)).2.2)))
      (Binary.double.nearest (m * 2 ^ k) (m' * 2 ^ k')) := by
  obtain ⟨places, hplaces, hunits⟩ := exists_unitsPerOne
  -- The quotient is to have its first place 53 places above the last one, unless that is the least.
  have htarget : format.targetExponent (totalExponent m (k - 1074) - totalExponent m' (k' - 1074)) =
      max ((m.log2 : Int) + k - m'.log2 - k' - 53) (-1074) := by
    have hbits : (format.mantissaBits : Int) = 53 := rfl
    have hleast : format.minExponent = -1074 := rfl
    rw [totalExponent, totalExponent, Format.targetExponent, hbits, hleast]
    omega
  rw [divCore, htarget]
  simp only
  -- The dividend is shifted until the quotient has these places or more.
  generalize hT : min ((k : Int) - 1074 - (k' - 1074))
    (max ((m.log2 : Int) + k - m'.log2 - k' - 53) (-1074)) = T
  generalize hshift : ((k : Int) - 1074 - (k' - 1074) - T).toNat = shift
  rw [Nat.shiftLeft_eq]
  refine hasPattern_round (i := k + places) (j := k' + shift) hpos' (represents_fraction _ hpos')
    rfl ?_ (by omega) (Nat.mul_pos hpos' (Nat.two_pow_pos k')) ?_
  · -- the quotient fills its places, unless the last of them is the smallest
    have hfull : -1074 < T → 52 ≤ (m * 2 ^ shift / m').log2 := fun hT => by
      have hle : 2 ^ 52 ≤ m * 2 ^ shift / m' := by
        refine (Nat.le_div_iff_mul_le hpos').mpr ?_
        calc 2 ^ 52 * m' ≤ 2 ^ 52 * 2 ^ (m'.log2 + 1) :=
              Nat.mul_le_mul_left _ Nat.lt_log2_self.le
          _ = 2 ^ (52 + (m'.log2 + 1)) := (Nat.pow_add _ _ _).symm
          _ ≤ 2 ^ (m.log2 + shift) := Nat.pow_le_pow_right (by decide) (by omega)
          _ = 2 ^ m.log2 * 2 ^ shift := Nat.pow_add _ _ _
          _ ≤ m * 2 ^ shift := Nat.mul_le_mul_right _ (Nat.log2_self_le hpos.ne')
      exact (Nat.le_log2 (by omega)).mpr hle
    rw [targetExponent_eq]
    omega
  · rw [hunits]
    ring

/-- The product of two numbers of one sign is rounded once. -/
theorem hasPattern_mulFinite {s : Sign} {k m k' m' : Nat} (hpos : 0 < m) (hpos' : 0 < m')
    (hc : Binary.double.Canonical k m) (hc' : Binary.double.Canonical k' m') :
    HasPattern (Float.ofModel (Float.Model.pack
        (UnpackedFloat.mul format (.finite s m (k - 1074) hpos) (.finite s m' (k' - 1074) hpos'))))
      (Binary.double.nearest (m * 2 ^ k * (m' * 2 ^ k'))
        (Binary.double.unitsPerOne * Binary.double.unitsPerOne)) := by
  have hone := Binary.Format.unitsPerOne_pos Binary.double
  have hsign : s * s = .positive := by cases s <;> rfl
  obtain ⟨places, hplaces, hunits⟩ := exists_unitsPerOne
  -- Where one factor is full the product fills its places, too; otherwise both are at the least.
  have hfull : k ≠ 0 ∨ k' ≠ 0 → 52 ≤ (m * m').log2 := fun h => by
    refine (Nat.le_log2 (Nat.mul_pos hpos hpos').ne').mpr ?_
    rcases h with h | h
    · exact (hc.normal h).trans (Nat.le_mul_of_pos_right m hpos')
    · exact (hc'.normal h).trans (Nat.le_mul_of_pos_left m' hpos)
  rw [UnpackedFloat.mul, hsign]
  refine hasPattern_round (n := m * m') (d := 1) (i := k + k') (j := places) Nat.one_pos
    (represents_exact _) (Nat.div_one _).symm ?_ ?_ (Nat.mul_pos hone hone) ?_
  · rw [targetExponent_eq]
    omega
  · omega
  · rw [hunits]
    ring

/-- The sum of two mantissas with the finer of their last places. -/
theorem add_finite {k m k' m' : Nat} (hpos : 0 < m) (hpos' : 0 < m') :
    UnpackedFloat.add format (.finite .positive m (k - 1074) hpos)
        (.finite .positive m' (k' - 1074) hpos') =
      UnpackedFloat.normalize format
        ((m * 2 ^ (k - min k k') + m' * 2 ^ (k' - min k k') : Nat) : Int)
        ((min k k' : Nat) - 1074) .positive := by
  have hmin : min ((k : Int) - 1074) (k' - 1074) = (min k k' : Nat) - 1074 := by omega
  have hfirst : ((k : Int) - 1074 - ((min k k' : Nat) - 1074)).toNat = k - min k k' := by omega
  have hsecond : ((k' : Int) - 1074 - ((min k k' : Nat) - 1074)).toNat = k' - min k k' := by omega
  rw [UnpackedFloat.add, hmin]
  simp only [decreaseExponent, hfirst, hsecond, Nat.shiftLeft_eq, Sign.apply, Nat.cast_add]

/-- A mantissa with more or fewer places than the format has is rounded once. -/
theorem hasPattern_normalize {k m : Nat} (hpos : 0 < m) :
    HasPattern (Float.ofModel (Float.Model.pack
        (UnpackedFloat.normalize format m (k - 1074) .positive)))
      (Binary.double.nearest (m * 2 ^ k) Binary.double.unitsPerOne) := by
  rw [UnpackedFloat.normalize, Int.compare_eq_gt.mpr (by omega)]
  simp only [UnpackedFloat.round, decreaseExponent, Int.toNat_natCast, targetExponent_eq]
  -- The exponent is lowered until the mantissa fills its places.
  generalize hT : max ((m.log2 : Int) + (k - 1074) - 52) (-1074) = T
  generalize hshift : ((k : Int) - 1074 - T).toNat = shift
  have hlog := log2_mul_two_pow hpos.ne' shift
  rw [Nat.shiftLeft_eq]
  refine hasPattern_round (d := 1) (i := k) (j := shift) Nat.one_pos (represents_exact _)
    (Nat.div_one _).symm ?_ (by omega) (Binary.Format.unitsPerOne_pos _) ?_
  · rw [targetExponent_eq, hlog]
    omega
  · ring

/-! ### Operations -/

namespace HasPattern

variable {x y : Float} {p q : Nat}

/-- The exact product is rounded once. -/
theorem mul (hx : HasPattern x p) (hy : HasPattern y q) (hp : p < Binary.double.infinityBits)
    (hq : q < Binary.double.infinityBits) : HasPattern (x * y) (Binary.double.product p q) := by
  have hone := Binary.Format.unitsPerOne_pos Binary.double
  have hres : x * y = Float.ofModel (Float.Model.pack
    (UnpackedFloat.mul format x.toModel.unpack y.toModel.unpack)) := rfl
  rw [hres, Binary.Format.product]
  -- A zero or infinite factor is excluded or has no units; two numbers are rounded.
  rcases hx.cases with ⟨rfl, s, -, hu⟩ | ⟨k, m, hpos, hc, rfl, hlt, -, hu⟩ | ⟨rfl, -, hu⟩
  · rw [magnitude_zero, Nat.zero_mul, nearest_zero (Nat.mul_pos hone hone), hu]
    rcases hy.cases with ⟨rfl, s', -, hu'⟩ | ⟨k', m', hpos', hc', rfl, hlt', -, hu'⟩ | ⟨rfl, -, hu'⟩
    · rw [hu']
      exact hasPattern_packedZero _
    · rw [hu']
      exact hasPattern_packedZero _
    · exact absurd hq (Nat.lt_irrefl _)
  · rcases hy.cases with ⟨rfl, s', -, hu'⟩ | ⟨k', m', hpos', hc', rfl, hlt', -, hu'⟩ | ⟨rfl, -, hu'⟩
    · rw [magnitude_zero, Nat.mul_zero, nearest_zero (Nat.mul_pos hone hone), hu, hu']
      exact hasPattern_packedZero _
    · rw [hu, hu', magnitude_canonical hc hlt, magnitude_canonical hc' hlt']
      exact hasPattern_mulFinite hpos hpos' hc hc'
    · exact absurd hq (Nat.lt_irrefl _)
  · exact absurd hp (Nat.lt_irrefl _)

/-- The exact quotient is rounded once. -/
theorem div (hx : HasPattern x p) (hy : HasPattern y q) (hp : p < Binary.double.infinityBits)
    (hpos : 0 < q) (hq : q < Binary.double.infinityBits) :
    HasPattern (x / y) (Binary.double.quotient p q) := by
  have hres : x / y = Float.ofModel (Float.Model.pack
    (UnpackedFloat.div format x.toModel.unpack y.toModel.unpack)) := rfl
  rw [hres, Binary.Format.quotient]
  -- The divisor is positive and finite, so only the dividend may be zero.
  rcases hy.cases with ⟨rfl, -⟩ | ⟨k', m', hpos', hc', rfl, hlt', -, hu'⟩ | ⟨rfl, -⟩
  · exact absurd hpos (Nat.lt_irrefl _)
  · have hden : 0 < m' * 2 ^ k' := Nat.mul_pos hpos' (Nat.two_pow_pos k')
    rcases hx.cases with ⟨rfl, s, -, hu⟩ | ⟨k, m, hpos, hc, rfl, hlt, -, hu⟩ | ⟨rfl, -⟩
    · rw [magnitude_zero, magnitude_canonical hc' hlt', nearest_zero hden, hu, hu']
      exact hasPattern_packedZero _
    · rw [magnitude_canonical hc hlt, magnitude_canonical hc' hlt', hu, hu']
      exact hasPattern_divCore hpos hpos'
    · exact absurd hp (Nat.lt_irrefl _)
  · exact absurd hq (Nat.lt_irrefl _)

/-- The exact sum is rounded once. -/
theorem add (hx : HasPattern x p) (hy : HasPattern y q) (hp : p < Binary.double.infinityBits)
    (hq : q < Binary.double.infinityBits) : HasPattern (x + y) (Binary.double.sum p q) := by
  have hone := Binary.Format.unitsPerOne_pos Binary.double
  have hres : x + y = Float.ofModel (Float.Model.pack
    (UnpackedFloat.add format x.toModel.unpack y.toModel.unpack)) := rfl
  -- A sum with a zero is exact, and what is exact is packed without rounding.
  have hexact (u : UnpackedFloat) (r : Nat) (hr : r < Binary.double.infinityBits)
      (h : (UnpackedFloat.pack format u).toNat = min Binary.double.infinityBits r) :
      HasPattern (Float.ofModel (Float.Model.pack u)) r :=
    ⟨hr.le, .inl (by rw [toBits_pack, h, Nat.min_eq_right hr.le])⟩
  rw [hres, Binary.Format.sum]
  rcases hx.cases with ⟨rfl, s, -, hu⟩ | ⟨k, m, hpos, hc, rfl, hlt, -, hu⟩ | ⟨rfl, -⟩
  · rw [magnitude_zero, Nat.zero_add, nearest_magnitude hq.le, hu]
    rcases hy.cases with ⟨rfl, s', -, hu'⟩ | ⟨k', m', hpos', hc', rfl, hlt', -, hu'⟩ | ⟨rfl, -⟩
    · rw [hu']
      cases s <;> cases s' <;> exact hasPattern_packedZero _
    · rw [hu']
      exact hexact _ _ hlt' (toNat_pack_finite hc' hpos')
    · exact absurd hq (Nat.lt_irrefl _)
  · rcases hy.cases with ⟨rfl, s', -, hu'⟩ | ⟨k', m', hpos', hc', rfl, hlt', -, hu'⟩ | ⟨rfl, -⟩
    · rw [magnitude_zero, Nat.add_zero, nearest_magnitude hp.le, hu, hu']
      exact hexact _ _ hlt (toNat_pack_finite hc hpos)
    · rw [hu, hu', magnitude_canonical hc hlt, magnitude_canonical hc' hlt']
      -- Both terms are put on the finer of their last places, where their mantissas add up.
      have hsum : m * 2 ^ k + m' * 2 ^ k' =
          (m * 2 ^ (k - min k k') + m' * 2 ^ (k' - min k k')) * 2 ^ min k k' := by
        rw [Nat.add_mul, Nat.mul_assoc, Nat.mul_assoc, ← Nat.pow_add, ← Nat.pow_add,
          Nat.sub_add_cancel (Nat.min_le_left k k'), Nat.sub_add_cancel (Nat.min_le_right k k')]
      rw [hsum, add_finite]
      exact hasPattern_normalize (Nat.add_pos_left (Nat.mul_pos hpos (Nat.two_pow_pos _)) _)
    · exact absurd hq (Nat.lt_irrefl _)
  · exact absurd hp (Nat.lt_irrefl _)

/-! ### Infinite results -/

/-- Infinity times what is positive is infinity. -/
theorem infinite_mul (hx : HasPattern x Binary.double.infinityBits) (hy : HasPattern y q)
    (hpos : 0 < q) : HasPattern (x * y) Binary.double.infinityBits := by
  have hres : x * y = Float.ofModel (Float.Model.pack
    (UnpackedFloat.mul format x.toModel.unpack y.toModel.unpack)) := rfl
  rw [hres, hx.unpack_infinity]
  rcases hy.cases with ⟨rfl, -⟩ | ⟨k', m', hpos', -, -, -, -, hu'⟩ | ⟨-, -, hu'⟩
  · exact absurd hpos (Nat.lt_irrefl _)
  · rw [hu']
    exact hasPattern_packedInfinity
  · rw [hu']
    exact hasPattern_packedInfinity

/-- What is positive times infinity is infinity. -/
theorem mul_infinite (hx : HasPattern x p) (hy : HasPattern y Binary.double.infinityBits)
    (hpos : 0 < p) : HasPattern (x * y) Binary.double.infinityBits := by
  have hres : x * y = Float.ofModel (Float.Model.pack
    (UnpackedFloat.mul format x.toModel.unpack y.toModel.unpack)) := rfl
  rw [hres, hy.unpack_infinity]
  rcases hx.cases with ⟨rfl, -⟩ | ⟨k, m, hm, -, -, -, -, hu⟩ | ⟨-, -, hu⟩
  · exact absurd hpos (Nat.lt_irrefl _)
  · rw [hu]
    exact hasPattern_packedInfinity
  · rw [hu]
    exact hasPattern_packedInfinity

/-- Infinity divided by a positive number is infinity. -/
theorem infinite_div (hx : HasPattern x Binary.double.infinityBits) (hy : HasPattern y q)
    (hpos : 0 < q) (hq : q < Binary.double.infinityBits) :
    HasPattern (x / y) Binary.double.infinityBits := by
  have hres : x / y = Float.ofModel (Float.Model.pack
    (UnpackedFloat.div format x.toModel.unpack y.toModel.unpack)) := rfl
  rw [hres, hx.unpack_infinity]
  rcases hy.cases with ⟨rfl, -⟩ | ⟨k', m', hpos', -, -, -, -, hu'⟩ | ⟨rfl, -⟩
  · exact absurd hpos (Nat.lt_irrefl _)
  · rw [hu']
    exact hasPattern_packedInfinity
  · exact absurd hq (Nat.lt_irrefl _)

/-- Division by a positive finite number has a result that is not negative. -/
theorem exists_div (hx : HasPattern x p) (hy : HasPattern y q) (hpos : 0 < q)
    (hq : q < Binary.double.infinityBits) : ∃ r, HasPattern (x / y) r := by
  rcases Nat.lt_or_eq_of_le hx.1 with hp | rfl
  · exact ⟨_, hx.div hy hp hpos hq⟩
  · exact ⟨_, hx.infinite_div hy hpos hq⟩

/-- The product with a positive finite number has a result that is not negative. -/
theorem exists_mul (hx : HasPattern x p) (hy : HasPattern y q) (hpos : 0 < q)
    (hq : q < Binary.double.infinityBits) : ∃ r, HasPattern (x * y) r := by
  rcases Nat.lt_or_eq_of_le hx.1 with hp | rfl
  · exact ⟨_, hx.mul hy hp hq⟩
  · exact ⟨_, hx.infinite_mul hy hpos⟩

/-- Infinity plus what is not negative is infinity. -/
theorem infinite_add (hx : HasPattern x Binary.double.infinityBits) (hy : HasPattern y q) :
    HasPattern (x + y) Binary.double.infinityBits := by
  have hres : x + y = Float.ofModel (Float.Model.pack
    (UnpackedFloat.add format x.toModel.unpack y.toModel.unpack)) := rfl
  rw [hres, hx.unpack_infinity]
  rcases hy.cases with ⟨-, s, -, hu'⟩ | ⟨k', m', hpos', -, -, -, -, hu'⟩ | ⟨-, -, hu'⟩ <;>
    rw [hu'] <;> exact hasPattern_packedInfinity

/-- What is not negative plus infinity is infinity. -/
theorem add_infinite (hx : HasPattern x p) (hy : HasPattern y Binary.double.infinityBits) :
    HasPattern (x + y) Binary.double.infinityBits := by
  have hres : x + y = Float.ofModel (Float.Model.pack
    (UnpackedFloat.add format x.toModel.unpack y.toModel.unpack)) := rfl
  rw [hres, hy.unpack_infinity]
  rcases hx.cases with ⟨-, s, -, hu⟩ | ⟨k, m, hpos, -, -, -, -, hu⟩ | ⟨-, -, hu⟩ <;>
    rw [hu] <;> exact hasPattern_packedInfinity

/-- A sum of numbers that are not negative is not negative. -/
theorem exists_add (hx : HasPattern x p) (hy : HasPattern y q) : ∃ r, HasPattern (x + y) r := by
  rcases Nat.lt_or_eq_of_le hx.1 with hp | rfl
  · rcases Nat.lt_or_eq_of_le hy.1 with hq | rfl
    · exact ⟨_, hx.add hy hp hq⟩
    · exact ⟨_, hx.add_infinite hy⟩
  · exact ⟨_, hx.infinite_add hy⟩

end HasPattern

/-- A sum with an infinite term is infinite or not a number. -/
theorem add_of_not_isFinite {u v : UnpackedFloat} (h : ¬ (u.isFinite = true ∧ v.isFinite = true)) :
    UnpackedFloat.add format u v = .notANumber ∨
      ∃ s, UnpackedFloat.add format u v = .infinity s := by
  -- Infinity wins over numbers, and only infinities of two signs have no sum.
  cases u with
  | notANumber => exact .inl rfl
  | infinity s =>
    cases v with
    | notANumber => exact .inl rfl
    | infinity t =>
      rw [UnpackedFloat.add]
      split
      · exact .inr ⟨s, rfl⟩
      · exact .inl rfl
    | zero t => exact .inr ⟨s, rfl⟩
    | finite t m e hpos => exact .inr ⟨s, rfl⟩
  | zero s =>
    cases v with
    | notANumber => exact .inl rfl
    | infinity t => exact .inr ⟨t, rfl⟩
    | zero t => exact absurd ⟨rfl, rfl⟩ h
    | finite t m e hpos => exact absurd ⟨rfl, rfl⟩ h
  | finite s m e hpos =>
    cases v with
    | notANumber => exact .inl rfl
    | infinity t => exact .inr ⟨t, rfl⟩
    | zero t => exact absurd ⟨rfl, rfl⟩ h
    | finite t m' e' hpos' => exact absurd ⟨rfl, rfl⟩ h

/-- **A finite sum has finite terms.** -/
theorem isFinite_of_add {x y : Float} (h : (x + y).isFinite = true) :
    x.isFinite = true ∧ y.isFinite = true := by
  have hres : x + y = Float.ofModel (Float.Model.pack
    (UnpackedFloat.add format x.toModel.unpack y.toModel.unpack)) := rfl
  by_contra hterms
  rw [hres] at h
  rcases add_of_not_isFinite hterms with hnan | ⟨s, hinf⟩
  · rw [hnan] at h
    exact absurd h (by decide)
  · rw [hinf] at h
    cases s <;> exact absurd h (by decide)

/-! ### Doubles from patterns -/

/-- A number of 63 bits is its own pattern of 64 bits. -/
theorem toNat_toBitVec_ofNat {p : Nat} (hp : p < 2 ^ 63) :
    (UInt64.ofNat p).toBitVec.toNat = p := by
  rw [UInt64.toBitVec_ofNat', BitVec.toNat_ofNat]
  exact Nat.mod_eq_of_lt (by omega)

/-- A pattern up to that of infinity is its own pattern of 64 bits. -/
theorem toNat_toBitVec_of_le {p : Nat} (hp : p ≤ Binary.double.infinityBits) :
    (UInt64.ofNat p).toBitVec.toNat = p :=
  toNat_toBitVec_ofNat
    ((Nat.lt_of_le_of_lt hp Binary.double.infinityBits_lt_signBit).trans_eq signBit_eq)

/-- No pattern up to that of infinity stands for what is not a number. -/
theorem valid_of_le {b : BitVec format.numBits} {p : Nat} (hb : b.toNat = p)
    (hp : p ≤ Binary.double.infinityBits) : format.Valid b := by
  refine ⟨fun hexponent hmantissa => absurd (BitVec.eq_of_toNat_eq ?_) hmantissa⟩
  have hones : (-1#_ : BitVec format.exponentBits).toNat = 2047 := by decide
  have hfield := congrArg BitVec.toNat hexponent
  rw [toNat_unpackExponent, hb, hones] at hfield
  rw [infinityBits_eq] at hp
  rw [toNat_unpackMantissa, hb, BitVec.toNat_ofNat, Nat.zero_mod]
  omega

/-- A double that is made of a valid pattern has that pattern. -/
theorem toBits_ofBits {b : UInt64} (h : format.Valid b.toBitVec) : (Float.ofBits b).toBits = b := by
  refine UInt64.toBitVec_inj.mp ?_
  show UnpackedFloat.pack format (UnpackedFloat.unpack format _) = _
  rw [pack_unpack_of_valid h]

/-- A pattern is read as the double that has it. -/
theorem hasPattern_ofBits {p : Nat} (hp : p ≤ Binary.double.infinityBits) :
    HasPattern (Float.ofBits (UInt64.ofNat p)) p := by
  have hnat := toNat_toBitVec_of_le hp
  refine ⟨hp, .inl ?_⟩
  rw [toBits_ofBits (valid_of_le hnat hp)]
  exact hnat

/-- Nothing is rounded beyond infinity. -/
theorem nearest_le_infinityBits (num den : Nat) :
    Binary.double.nearest num den ≤ Binary.double.infinityBits := Nat.min_le_left _ _

/-- A whole number is rounded once. -/
theorem hasPattern_ofWhole (n : Nat) :
    HasPattern (Binary.ofWhole n) (Binary.double.nearest n 1) := by
  rw [Binary.ofWhole, Binary.ofQuotient, Binary.Format.nearestSigned, if_neg Bool.false_ne_true]
  exact hasPattern_ofBits (nearest_le_infinityBits n 1)

/-! ### Operations keep the order -/

namespace Grows

variable {x y z w : Float}

/-- **A quotient by the same positive number keeps the order.** -/
theorem div (h : Grows x y) (hz : 0 < z ∧ z.isFinite = true) : Grows (x / z) (y / z) := by
  obtain ⟨p, q, hp, hq, hpq⟩ := h.exists_patterns
  obtain ⟨r, hpos, hr⟩ := zero_lt_iff.mp hz.1
  have hrf := hr.isFinite_iff.mp hz.2
  rcases Nat.lt_or_eq_of_le hq.1 with hqf | rfl
  · have hden := magnitude_pos hpos hr.lt_signBit
    refine of_patterns (hp.div hr (Nat.lt_of_le_of_lt hpq hqf) hpos hrf) (hq.div hr hqf hpos hrf) ?_
    refine Binary.Format.nearest_mono hden hden (Nat.mul_le_mul_right _ ?_)
    exact Binary.Format.magnitude_mono hpq hq.lt_signBit
  · obtain ⟨t, ht⟩ := hp.exists_div hr hpos hrf
    exact of_patterns ht (hq.infinite_div hr hpos hrf) ht.1

/-- **A product with the same positive number keeps the order.** -/
theorem mul (h : Grows x y) (hz : 0 < z ∧ z.isFinite = true) : Grows (x * z) (y * z) := by
  obtain ⟨p, q, hp, hq, hpq⟩ := h.exists_patterns
  obtain ⟨r, hpos, hr⟩ := zero_lt_iff.mp hz.1
  have hrf := hr.isFinite_iff.mp hz.2
  rcases Nat.lt_or_eq_of_le hq.1 with hqf | rfl
  · have hone := Binary.Format.unitsPerOne_pos Binary.double
    have hden := Nat.mul_pos hone hone
    refine of_patterns (hp.mul hr (Nat.lt_of_le_of_lt hpq hqf) hrf) (hq.mul hr hqf hrf) ?_
    refine Binary.Format.nearest_mono hden hden (Nat.mul_le_mul_right _ (Nat.mul_le_mul_right _ ?_))
    exact Binary.Format.magnitude_mono hpq hq.lt_signBit
  · obtain ⟨t, ht⟩ := hp.exists_mul hr hpos hrf
    exact of_patterns ht (hq.infinite_mul hr hpos) ht.1

/-- **Sums keep the order.** -/
theorem add (h : Grows x y) (h' : Grows z w) : Grows (x + z) (y + w) := by
  obtain ⟨p, q, hp, hq, hpq⟩ := h.exists_patterns
  obtain ⟨r, t, hr, ht, hrt⟩ := h'.exists_patterns
  obtain ⟨s, hs⟩ := hp.exists_add hr
  -- If the larger of two terms is infinite the larger sum is so, too; otherwise both sums are
  -- rounded.
  rcases Nat.lt_or_eq_of_le hq.1 with hqf | rfl
  · rcases Nat.lt_or_eq_of_le ht.1 with htf | rfl
    · have hone := Binary.Format.unitsPerOne_pos Binary.double
      have hxz := hp.add hr (Nat.lt_of_le_of_lt hpq hqf) (Nat.lt_of_le_of_lt hrt htf)
      refine of_patterns hxz (hq.add ht hqf htf) ?_
      refine Binary.Format.nearest_mono hone hone (Nat.mul_le_mul_right _ (Nat.add_le_add ?_ ?_))
      · exact Binary.Format.magnitude_mono hpq hq.lt_signBit
      · exact Binary.Format.magnitude_mono hrt ht.lt_signBit
    · exact of_patterns hs (hq.add_infinite ht) hs.1
  · exact of_patterns hs (hq.infinite_add ht) hs.1

end Grows

end Double

end ClosedLoop
