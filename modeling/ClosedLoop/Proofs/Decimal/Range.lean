import ClosedLoop.Proofs.Binary
import ClosedLoop.Proofs.Decimal.Numerals

namespace ClosedLoop.Decimal

open Binary (Format)

/-!
# Which decimals are printed

The decimal that is printed for a number is one of those that round to the number, so it is not
larger than all of them.

* `Neighbourhood.value_le_of_contains` — a decimal in a neighbourhood is bounded by its upper end;
* `Scientific.value_trim` — moving zeros from the digits to the exponent changes nothing;
* `shortest_isProper`, `shortest_value_le` — **what is printed is a proper decimal, and bounded
  below the largest double**.
-/

variable {s : Scientific}

/-! ### Zeros at the end -/

/-- Zeros at the end can be cut off. -/
theorem Scientific.value_trim (s : Scientific) (fuel : Nat) : (s.trim fuel).value = s.value := by
  induction fuel generalizing s with
  | zero => rfl
  | succ fuel ih =>
    rw [trim]
    split
    · rename_i hzero
      -- The digits end in a zero, so a tenth of them has an exponent greater by one.
      rw [ih, value, value, zpow_add_one₀ (by norm_num)]
      have hdigits : s.digits = s.digits / 10 * 10 := (Nat.div_mul_cancel
        (Nat.dvd_of_mod_eq_zero hzero)).symm
      conv_rhs => rw [hdigits]
      push_cast
      ring
    · rfl

/-- Cutting zeros off leaves a digit. -/
theorem Scientific.digits_trim_pos (hs : 0 < s.digits) (fuel : Nat) :
    0 < (s.trim fuel).digits := by
  induction fuel generalizing s with
  | zero => exact hs
  | succ fuel ih =>
    rw [trim]
    split
    · rename_i hzero
      exact ih (s := ⟨s.digits / 10, s.exponent + 1⟩) (by dsimp only; omega)
    · exact hs

/-! ### Neighbourhoods -/

namespace Neighbourhood

variable {n : Neighbourhood}

/-- The ends of a neighbourhood bound its decimals. -/
theorem bounds_of_contains (h : n.contains s = true) :
    n.low * powerOfTen (-s.exponent).toNat ≤ s.digits * powerOfTen s.exponent.toNat * n.scale ∧
      s.digits * powerOfTen s.exponent.toNat * n.scale ≤
        n.high * powerOfTen (-s.exponent).toNat := by
  rw [contains] at h
  split at h <;> rw [Bool.and_eq_true, decide_eq_true_eq, decide_eq_true_eq] at h
  · exact h
  · exact ⟨h.1.le, h.2.le⟩

/-- A decimal in a neighbourhood is bounded by what bounds the upper end. -/
theorem value_le_of_contains {bound : Nat} (h : n.contains s = true) (hscale : 0 < n.scale)
    (hbound : n.high ≤ bound * n.scale) : s.value ≤ bound := by
  have hle : s.digits * 10 ^ s.exponent.toNat ≤ bound * 10 ^ (-s.exponent).toNat := by
    have := (bounds_of_contains h).2.trans (Nat.mul_le_mul_right _ hbound)
    refine Nat.le_of_mul_le_mul_right (c := n.scale) ?_ hscale
    calc s.digits * 10 ^ s.exponent.toNat * n.scale
        ≤ bound * n.scale * 10 ^ (-s.exponent).toNat := this
      _ = bound * 10 ^ (-s.exponent).toNat * n.scale := by ring
  have hcast : (s.digits : ℚ) * 10 ^ s.exponent.toNat ≤ bound * 10 ^ (-s.exponent).toNat := by
    exact_mod_cast hle
  have hpos : (0 : ℚ) < 10 ^ (-s.exponent).toNat := by positivity
  -- Only one of the two powers is not one, depending on the sign of the exponent.
  have hsplit : (10 : ℚ) ^ s.exponent.toNat =
      10 ^ s.exponent * 10 ^ (-s.exponent).toNat := by
    rw [← zpow_natCast, ← zpow_natCast, ← zpow_add₀ (by norm_num)]
    congr 1
    omega
  rw [hsplit, ← mul_assoc] at hcast
  exact le_of_mul_le_mul_right hcast hpos

/-- A decimal in a neighbourhood of positive numbers has a digit other than zero. -/
theorem digits_pos_of_contains (h : n.contains s = true) (hlow : 0 < n.low) : 0 < s.digits := by
  have hpower : 0 < powerOfTen (-s.exponent).toNat := Nat.pow_pos (by decide)
  have := (Nat.mul_pos hlow hpower).trans_le (bounds_of_contains h).1
  exact Nat.pos_of_mul_pos_right (Nat.pos_of_mul_pos_right this)

/-- What is taken on a grid lies in the neighbourhood. -/
theorem contains_of_onGrid? {tie : Tie} {count : Nat} (h : n.onGrid? tie count = some s) :
    n.contains s = true := by
  rw [onGrid?] at h
  dsimp only at h
  split at h
  · cases h
  -- The grid has the point below, the one above, both or none. Of both the nearer one is taken.
  · rename_i hfloor habove
    cases h
    exact hfloor
  · rename_i hfloor habove
    cases h
    exact habove
  · rename_i hfloor habove
    split at h
    · cases h
      exact hfloor
    · split at h
      · cases h
        exact habove
      · split at h
        · cases h
          exact hfloor
        · cases h
          exact habove

/-- The numbers that round to a positive number are positive. -/
theorem low_ofUnits_pos (f : Format) {units : Nat} (hpos : 0 < units) :
    0 < (ofUnits f units).low := by
  have hstep : 1 <<< f.coarseness units ≤ units := by
    rw [Nat.one_shiftLeft]
    exact (Nat.pow_le_pow_right (by decide) (Nat.sub_le _ _)).trans
      (Nat.log2_self_le hpos.ne')
  rw [ofUnits]
  dsimp only
  split <;> omega

end Neighbourhood

/-! ### The printed decimal -/

/-- What is printed was found in the neighbourhood, or it is a plain zero. -/
theorem shortest_cases (f : Format) (tie : Tie) (units : Nat) :
    (∃ s, (Neighbourhood.ofUnits f units).contains s = true ∧ shortest f tie units = s.trim 17) ∨
      shortest f tie units = ⟨0, 0⟩ := by
  rw [shortest]
  split
  · rename_i s hs
    obtain ⟨i, -, hi⟩ := List.exists_of_findSome?_eq_some hs
    exact .inl ⟨s, Neighbourhood.contains_of_onGrid? hi, rfl⟩
  · exact .inr rfl

/-- The shortest decimal of a positive number is proper. -/
theorem shortest_isProper (f : Format) (tie : Tie) {units : Nat} (hpos : 0 < units) :
    (shortest f tie units).IsProper := by
  obtain ⟨s, hs, heq⟩ | heq := shortest_cases f tie units
  · rw [heq]
    exact .inl (Scientific.digits_trim_pos
      (Neighbourhood.digits_pos_of_contains hs (Neighbourhood.low_ofUnits_pos f hpos)) 17)
  · rw [heq]
    exact .inr rfl

/-! ### Doubles -/

/-- The units of a number in its last place are as coarse as the number. -/
theorem coarseness_canonical {f : Format} {k m : Nat} (hc : f.Canonical k m) (hpos : 0 < m) :
    f.coarseness (m * 2 ^ k) = k := by
  have hlt := hc.lt
  rw [← Nat.pow_succ'] at hlt
  rw [Format.coarseness]
  -- In the first exponent there are fewer bits. In all others the first bit is set.
  rcases Nat.eq_zero_or_pos k with rfl | hk
  · have := (Nat.log2_lt hpos.ne').mpr hlt
    rw [Nat.pow_zero, Nat.mul_one]
    omega
  · have hlog : (m * 2 ^ k).log2 = f.fractionBits + k := by
      rw [Nat.log2_eq_iff (Nat.mul_pos hpos (Nat.two_pow_pos k)).ne', Nat.pow_add,
        Nat.add_right_comm, Nat.pow_add]
      exact ⟨Nat.mul_le_mul_right _ (hc.normal hk.ne'),
        Nat.mul_lt_mul_of_pos_right hlt (Nat.two_pow_pos k)⟩
    omega

/-- The numbers that round to a number end half a place above it. -/
theorem high_canonical {f : Format} {k m : Nat} (hc : f.Canonical k m) (hpos : 0 < m) :
    (Neighbourhood.ofUnits f (m * 2 ^ k)).high = (4 * m + 2) * 2 ^ k := by
  rw [Neighbourhood.ofUnits]
  dsimp only
  rw [coarseness_canonical hc hpos, Nat.one_shiftLeft]
  ring

/-- No number that rounds to a double below the largest one is larger. -/
def belowLargest : Nat := 2 ^ 1024 - 3 * 2 ^ 970

/-- The neighbourhood of every number but the largest ends below the bound. -/
theorem high_le_belowLargest {k m : Nat} (hc : Binary.double.Canonical k m) (hpos : 0 < m)
    (hlt : k * 2 ^ 52 + m < 2047 * 2 ^ 52 - 1) :
    (Neighbourhood.ofUnits Binary.double (m * 2 ^ k)).high ≤
      belowLargest * (4 * Binary.double.unitsPerOne) := by
  -- The two largest mantissas decide, each with its last place.
  have hnumbers : (4 * (2 ^ 53 - 1) + 2) * 2 ^ 2044 ≤
      belowLargest * (4 * Binary.double.unitsPerOne) ∧
      (4 * (2 ^ 53 - 2) + 2) * 2 ^ 2045 ≤ belowLargest * (4 * Binary.double.unitsPerOne) := by
    decide +kernel
  have hm : m < 2 * 2 ^ 52 := hc.lt
  rw [high_canonical hc hpos]
  rcases Nat.lt_or_ge k 2045 with hk | hk
  · have hmantissa : 4 * m + 2 ≤ 4 * (2 ^ 53 - 1) + 2 := by omega
    have hplace : 2 ^ k ≤ 2 ^ 2044 := pow_le_pow_right₀ (by decide) (by omega)
    exact (Nat.mul_le_mul hmantissa hplace).trans hnumbers.1
  · have hnormal : 2 ^ 52 ≤ m := hc.normal (by omega)
    obtain rfl : k = 2045 := by omega
    have hmantissa : 4 * m + 2 ≤ 4 * (2 ^ 53 - 2) + 2 := by omega
    exact (Nat.mul_le_mul_right _ hmantissa).trans hnumbers.2

/-- **What is printed for a double below the largest one is bounded by the numbers that round to
it.** -/
theorem shortest_value_le {k m : Nat} (hc : Binary.double.Canonical k m) (hpos : 0 < m)
    (hlt : k * 2 ^ 52 + m < 2047 * 2 ^ 52 - 1) :
    (shortest Binary.double .toEven (m * 2 ^ k)).value ≤ belowLargest := by
  obtain ⟨s, hs, heq⟩ | heq := shortest_cases Binary.double .toEven (m * 2 ^ k)
  · rw [heq, Scientific.value_trim]
    exact Neighbourhood.value_le_of_contains hs
      (Nat.mul_pos (by decide) (Format.unitsPerOne_pos _)) (high_le_belowLargest hc hpos hlt)
  · rw [heq, Scientific.value, Nat.cast_zero, zero_mul]
    exact Nat.cast_nonneg _

end ClosedLoop.Decimal
