import ClosedLoop.Words
import Mathlib

namespace ClosedLoop

open Float.Model Float.Model.UnpackedFloat

/-!
# Numbers drawn from words in single precision

The upper bits of a word, scaled by a power of two, are a number from zero to below one. Single
precision keeps 24 places, which is as many as are taken from the word, so nothing is rounded: the
number is unpacked as it was packed, and its exponent alone tells that it is less than one.

* `Single.round_exact` — a number of 24 places is kept, whatever zeros follow;
* `Single.unpack_pack` — and unpacked as it was packed;
* `Single.ofNat_exact` — whole numbers of 24 places are exact;
* `not_unit32OfWord_lt`, `unit32OfWord_lt` — **drawn numbers lie from zero to below one**.
-/

namespace Single

/-- Single precision. -/
abbrev format : Format := .binary32

variable {m j : Nat} {e : Int}

/-! ### Rounding -/

/-- A number of 24 places that is shifted has as many places more. -/
theorem log2_mul (hm : 2 ^ 23 ≤ m) (hm' : m < 2 ^ 24) : (m * 2 ^ j).log2 = 23 + j := by
  have hpos : 0 < 2 ^ j := Nat.two_pow_pos j
  refine (Nat.log2_eq_iff (Nat.mul_ne_zero (by omega) (by omega))).mpr ⟨?_, ?_⟩
  · rw [Nat.pow_add]
    exact Nat.mul_le_mul_right _ hm
  · rw [Nat.add_right_comm, Nat.pow_add]
    exact Nat.mul_lt_mul_of_pos_right hm' hpos

/-- Zeros are shifted out without a loss. -/
theorem shiftRight_exact (m j : Nat) :
    (⟨m * 2 ^ j, false, false⟩ : ExtendedMantissa) >>> j = ⟨m, false, false⟩ := by
  show j.repeat ExtendedMantissa.shiftRightOne _ = _
  induction j generalizing m with
  | zero => simp [Nat.repeat]
  | succ j ih =>
    have hdouble : m * 2 ^ (j + 1) = 2 * m * 2 ^ j := by
      rw [Nat.pow_succ, Nat.mul_comm 2 m, Nat.mul_assoc, Nat.mul_comm 2]
    rw [Nat.repeat, hdouble, ih]
    simp [ExtendedMantissa.shiftRightOne]

/-- The exponent that a shifted number of 24 places is rounded to. -/
theorem targetExponent_mul (hm : 2 ^ 23 ≤ m) (hm' : m < 2 ^ 24) (he : -149 ≤ e + j) :
    format.targetExponent (totalExponent (m * 2 ^ j) e) = e + j := by
  have hplaces : (format.mantissaBits : Int) = 24 := rfl
  have hleast : format.minExponent = -149 := rfl
  rw [totalExponent, log2_mul hm hm', Format.targetExponent, hplaces, hleast]
  omega

/-- **A number of 24 places is kept**, whatever zeros follow. -/
theorem round_exact {s : Sign} (hm : 2 ^ 23 ≤ m) (hm' : m < 2 ^ 24) (he : -149 ≤ e + j) :
    roundWithAccuracy format s (m * 2 ^ j) e .exact = .finite s m (e + j) (by omega) := by
  have hfirst : shiftToTargetExponent format (m * 2 ^ j) e .exact =
      (⟨m, false, false⟩, e + j) := by
    have hshift : (e + j - e).toNat = j := by omega
    rw [shiftToTargetExponent, targetExponent_mul hm hm' he, shiftToExponent]
    simp only [hshift, ExtendedMantissa.ofMantissaAndAccuracy, shiftRight_exact]
  -- Nothing was rounded up, so there is nothing to shift any more.
  have hsecond : shiftToTargetExponent format m (e + j) .exact = (⟨m, false, false⟩, e + j) := by
    have htarget := targetExponent_mul (j := 0) (e := e + j) hm hm' (by omega)
    rw [Nat.pow_zero, Nat.mul_one] at htarget
    rw [shiftToTargetExponent, htarget, shiftToExponent]
    simp [ExtendedMantissa.ofMantissaAndAccuracy]
    rfl
  have hne : m ≠ 0 := by omega
  rw [roundWithAccuracy, hfirst]
  simp only [ExtendedMantissa.roundedMantissa, ExtendedMantissa.accuracy,
    Accuracy.roundToNearestEven, hsecond, dif_neg hne]

/-! ### Packing -/

/-- The sign is the first part of a pattern. -/
theorem unpackSign_packComponents {spec : Format} {sign : Sign}
    {exponent : BitVec spec.exponentBits} {mantissa : BitVec spec.mantissaBitsWithoutImplicit} :
    unpackSign (packComponents spec sign exponent mantissa) = sign.toBitVec := by
  ext i hi
  obtain rfl : i = 0 := by omega
  simp [unpackSign, packComponents, BitVec.getLsbD_eq_getElem, BitVec.getLsbD_append,
    BitVec.getElem_append]

/-- The bias of single precision. -/
theorem bias_eq : (format.exponentBias : Int) = 127 := rfl

/-- The places of the fraction in single precision. -/
theorem fraction_eq : (format.mantissaBitsWithoutImplicit : Int) = 23 := rfl

/-- A number of 24 places keeps all but the first of them in its pattern. -/
theorem pack_finite (hm : 2 ^ 23 ≤ m) (hm' : m < 2 ^ 24) (hpos : 0 < m) {biased : Nat}
    (hbiased : e + 150 = biased) (hfits : biased < 255) :
    UnpackedFloat.pack format (.finite .positive m e hpos) =
      packComponents format .positive (BitVec.ofNat _ biased) (BitVec.ofNat _ m) := by
  -- The first of the 24 places is not stored, so the fraction has 23.
  have hlog : m.log2 = 23 := by
    have h := log2_mul (j := 0) hm hm'
    rwa [Nat.pow_zero, Nat.mul_one] at h
  have hfield : (e + (format.exponentBias : Int) + format.mantissaBitsWithoutImplicit).toNat =
      biased := by
    rw [bias_eq, fraction_eq]
    omega
  rw [UnpackedFloat.pack]
  simp only [hfield, hlog]
  rw [if_neg (by show ¬2 ^ 8 ≤ biased + 1; omega)]
  exact if_pos rfl

/-- **A number of 24 places is unpacked as it was packed.** -/
theorem unpack_pack (hm : 2 ^ 23 ≤ m) (hm' : m < 2 ^ 24) (he : -149 ≤ e) (he' : e ≤ 0)
    (hpos : 0 < m) :
    UnpackedFloat.unpack format (UnpackedFloat.pack format (.finite .positive m e hpos)) =
      .finite .positive m e hpos := by
  obtain ⟨biased, hbiased⟩ : ∃ biased : Nat, e + 150 = biased := ⟨(e + 150).toNat, by omega⟩
  have hfits : biased < 255 := by omega
  have hfield : (BitVec.ofNat format.exponentBits biased).toNat = biased :=
    Nat.mod_eq_of_lt (by show biased < 2 ^ 8; omega)
  -- The exponent field is that of a finite number with a hidden place.
  have hfinite : BitVec.ofNat format.exponentBits biased ≠ -1#_ := fun heq => by
    have h := congrArg BitVec.toNat heq
    have hones : (-BitVec.ofNat format.exponentBits 1).toNat = 255 := rfl
    rw [hfield] at h
    omega
  have hnormal : BitVec.ofNat format.exponentBits biased ≠ 0#_ := fun heq => by
    have h := congrArg BitVec.toNat heq
    have hzero : (BitVec.ofNat format.exponentBits 0).toNat = 0 := rfl
    rw [hfield] at h
    omega
  have hmantissa : (1#1 ++ BitVec.ofNat format.mantissaBitsWithoutImplicit m).toNat = m := by
    rw [BitVec.toNat_append, ← Nat.shiftLeft_add_eq_or_of_lt (BitVec.isLt _), BitVec.toNat_ofNat]
    show 1 <<< 23 + m % 2 ^ 23 = m
    omega
  have hsign : Sign.ofBitVec Sign.positive.toBitVec = .positive := rfl
  rw [pack_finite hm hm' hpos hbiased hfits, UnpackedFloat.unpack]
  simp only [unpackMantissa_packComponents, unpackExponent_packComponents,
    unpackSign_packComponents, if_neg hfinite, if_neg hnormal, hmantissa, hsign, hfield]
  congr 1
  rw [bias_eq, fraction_eq]
  omega

/-! ### Whole numbers -/

/-- **A whole number of 24 places is exact.** -/
theorem ofNat_exact {n : Nat} (hpos : 0 < n) (hlt : n < 2 ^ 24) :
    ∃ m e h, 2 ^ 23 ≤ m ∧ m < 2 ^ 24 ∧ -23 ≤ e ∧ e ≤ 0 ∧
      UnpackedFloat.ofNat format n = .finite .positive m e h := by
  have hne : n ≠ 0 := by omega
  have hlog : n.log2 < 24 := (Nat.log2_lt hne).mpr hlt
  -- The places are filled up with zeros.
  obtain ⟨k, hk⟩ : ∃ k, 23 = n.log2 + k := ⟨23 - n.log2, by omega⟩
  have hm : 2 ^ 23 ≤ n * 2 ^ k := by
    rw [hk, Nat.pow_add]
    exact Nat.mul_le_mul_right _ (Nat.log2_self_le hne)
  have hm' : n * 2 ^ k < 2 ^ 24 := by
    have hsum : 24 = n.log2 + 1 + k := by omega
    rw [hsum, Nat.pow_add]
    exact Nat.mul_lt_mul_of_pos_right Nat.lt_log2_self (Nat.two_pow_pos k)
  refine ⟨n * 2 ^ k, -k, by omega, hm, hm', by omega, by omega, ?_⟩
  have hsign : compare (n : Int) 0 = .gt := by
    refine Int.compare_eq_gt.mpr ?_
    omega
  have htarget : format.targetExponent (totalExponent n 0) = -k := by
    have hplaces : (format.mantissaBits : Int) = 24 := rfl
    have hleast : format.minExponent = -149 := rfl
    rw [totalExponent, Format.targetExponent, hplaces, hleast]
    omega
  have hexact := round_exact (s := .positive) (j := 0) (e := -k) hm hm' (by omega)
  have hshift : (0 - (-k : Int)).toNat = k := by omega
  rw [Nat.pow_zero, Nat.mul_one] at hexact
  rw [UnpackedFloat.ofNat, UnpackedFloat.ofInt, UnpackedFloat.normalize, hsign]
  simp only [UnpackedFloat.round, Int.toNat_natCast, htarget, decreaseExponent]
  rw [hshift, Nat.shiftLeft_eq, Int.zero_sub, hexact]
  simp

/-! ### Numbers -/

/-- Packing a model and reading it again is packing and reading the pattern. -/
theorem unpack_pack_model (x : UnpackedFloat) :
    (Float32.Model.pack x).unpack = UnpackedFloat.unpack format (UnpackedFloat.pack format x) := rfl

/-- Floats are compared as the numbers that they show. -/
theorem lt_iff {x y : Float32} :
    x < y ↔ UnpackedFloat.lt x.toModel.unpack y.toModel.unpack = true := by
  show decide (x.toModel < y.toModel) = true ↔ _
  rw [decide_eq_true_iff]
  rfl

/-- What zero shows. -/
theorem unpack_zero : (0 : Float32).toModel.unpack = .zero .positive := by rfl

/-- What one shows. -/
theorem unpack_one :
    (0 + 1 : Float32).toModel.unpack = .finite .positive (2 ^ 23) (-23) (by decide) := by rfl

/-- The distance between two numbers that can be drawn. -/
theorem unpack_scale : (Float32.ofBits 0x33800000).toModel.unpack =
    .finite .positive (2 ^ 23) (-47) (by decide) := by rfl

end Single

/-- A drawn number is zero, or its exponent is less than that of one. -/
theorem unpack_unit32OfWord (w : UInt64) :
    (unit32OfWord w).toModel.unpack = .zero .positive ∨
      ∃ m e h, e < -23 ∧ (unit32OfWord w).toModel.unpack = .finite .positive m e h := by
  have hlt : (w >>> 40).toNat < 2 ^ 24 := by
    have hw := w.toNat_lt
    have hplaces : (40 : UInt64).toNat % 64 = 40 := rfl
    rw [UInt64.toNat_shiftRight, Nat.shiftRight_eq_div_pow, hplaces]
    omega
  have hproduct : (unit32OfWord w).toModel = Float32.Model.pack
      (UnpackedFloat.mul Single.format
        (Float32.Model.pack (UnpackedFloat.ofNat Single.format (w >>> 40).toNat)).unpack
        (Float32.ofBits 0x33800000).toModel.unpack) := rfl
  rw [hproduct, Single.unpack_scale]
  generalize (w >>> 40).toNat = n at hlt
  -- Of 24 bits, none may be set. Otherwise the scale shifts the number below one.
  by_cases hzero : n = 0
  · subst hzero
    exact .inl rfl
  · obtain ⟨m, e, h, hm, hm', he, he', hexact⟩ :=
      Single.ofNat_exact (Nat.pos_of_ne_zero hzero) hlt
    have hround :=
      Single.round_exact (s := .positive) (j := 23) (e := e + -47) hm hm' (by omega)
    refine .inr ⟨m, e + -47 + (23 : Nat), h, by omega, ?_⟩
    rw [hexact, Single.unpack_pack_model, Single.unpack_pack_model,
      Single.unpack_pack hm hm' (by omega) he' h]
    show UnpackedFloat.unpack Single.format (UnpackedFloat.pack Single.format
      (roundWithAccuracy Single.format .positive (m * 2 ^ 23) (e + -47) .exact)) = _
    rw [hround, Single.unpack_pack hm hm' (by omega) (by omega) h]

/-- A drawn number is not negative. -/
theorem not_unit32OfWord_lt (w : UInt64) : ¬unit32OfWord w < 0 := by
  rw [Single.lt_iff, Single.unpack_zero]
  rcases unpack_unit32OfWord w with h | ⟨m, e, hpos, -, h⟩
  · rw [h]
    decide
  · rw [h]
    simp [UnpackedFloat.lt, UnpackedFloat.compare]

/-- A drawn number is less than one. -/
theorem unit32OfWord_lt (w : UInt64) : unit32OfWord w < 0 + 1 := by
  rw [Single.lt_iff, Single.unpack_one]
  rcases unpack_unit32OfWord w with h | ⟨m, e, hpos, he, h⟩
  · rw [h]
    rfl
  · have hless : compare e (-23) = .lt := Int.compare_eq_lt.mpr he
    rw [h]
    simp [UnpackedFloat.lt, UnpackedFloat.compare, hless]

end ClosedLoop
