import ClosedLoop.Binary
import Mathlib.Algebra.Order.Ring.Nat
import Mathlib.Tactic.Linarith
import Mathlib.Tactic.Ring

namespace ClosedLoop

/-!
# Bounds on rounded floating-point numbers

A pattern without sign is a mantissa with a number of binary places by which its last place is
coarser than the smallest one. What is rounded to the nearest pattern never passes a pattern that
lies on its other side, nor the middle between two patterns, and it is off by half a last place at
most.

* `Binary.Format.Canonical`, `Binary.Format.exists_canonical` — the mantissa and the coarseness of a
  pattern;
* `Binary.Format.nearest_le`, `Binary.Format.le_nearest` — bounds that are patterns are kept;
* `Binary.Format.nearest_le_of_lt_middle`, `Binary.Format.lt_nearest_of_middle_le` — which of two
  neighbours a number is rounded to;
* `Binary.Format.lastPlace`, `Binary.Format.magnitude_nearest_lastPlace` — the rounding error in
  last places;
* `Binary.Format.magnitude_nearest_le`, `Binary.Format.le_magnitude_nearest` — the rounding error as
  a part of the number;
* `Binary.Format.magnitude_mono` — a larger pattern stands for a larger number;
* `roundHalfEven_mono`, `Binary.Format.nearest_mono` — rounding keeps the order;
* `Binary.Format.nearestUnits` — the same rounding of a number that is given in smallest places.
-/

/-! ### Rounding to whole numbers -/

/-- What is below the middle between two numbers is not rounded to the larger one. -/
theorem roundHalfEven_le_of_lt_middle {num den n : Nat} (hden : 0 < den)
    (h : 2 * num < (2 * n + 1) * den) : roundHalfEven num den ≤ n := by
  have hround := two_mul_roundHalfEven_le num hden
  by_contra hlt
  have hmul : (n + 1) * den ≤ roundHalfEven num den * den := Nat.mul_le_mul_right den (by omega)
  have hmiddle : (2 * n + 1) * den + den = 2 * ((n + 1) * den) := by ring
  omega

/-- A quotient up to a whole number is not rounded beyond it. -/
theorem roundHalfEven_le {num den n : Nat} (hden : 0 < den) (h : num ≤ n * den) :
    roundHalfEven num den ≤ n := by
  refine roundHalfEven_le_of_lt_middle hden ?_
  have hmiddle : (2 * n + 1) * den = 2 * (n * den) + den := by ring
  omega

/-- A quotient from a whole number on is not rounded below it. -/
theorem le_roundHalfEven {num den n : Nat} (hden : 0 < den) (h : n * den ≤ num) :
    n ≤ roundHalfEven num den := by
  have hround := le_two_mul_roundHalfEven num hden
  by_contra hlt
  have hmul : (roundHalfEven num den + 1) * den ≤ n * den := Nat.mul_le_mul_right den (by omega)
  rw [Nat.add_mul, Nat.one_mul] at hmul
  omega

/-- The middle between an odd number and the next is rounded to the next, which is even. -/
theorem lt_roundHalfEven_of_middle_le {num den n : Nat} (hodd : n % 2 = 1)
    (h : (2 * n + 1) * den ≤ 2 * num) (hden : 0 < den) : n < roundHalfEven num den := by
  have hmiddle : (2 * n + 1) * den = 2 * (n * den) + den := by ring
  rcases Nat.lt_or_eq_of_le h with hlt | htie
  · have hround := le_two_mul_roundHalfEven num hden
    by_contra hge
    have hmul : roundHalfEven num den * den ≤ n * den := Nat.mul_le_mul_right den (by omega)
    omega
  · -- The remainder is one half exactly.
    have hrest : 2 * (num - n * den) = den := by omega
    have hnum : num = (num - n * den) + den * n := by rw [Nat.mul_comm den n]; omega
    have hdiv : num / den = n := by
      rw [hnum, Nat.add_mul_div_left _ _ hden, Nat.div_eq_of_lt (by omega), Nat.zero_add]
    have hmod : num % den = num - n * den := by
      rw [hnum, Nat.add_mul_mod_self_left, Nat.mod_eq_of_lt (by omega), ← hnum]
    rw [roundHalfEven, hdiv, hmod, hrest, if_neg (Nat.lt_irrefl _), if_neg (Nat.lt_irrefl _)]
    omega

/-- What is at most the middle between an even number and the next is not rounded to the next. -/
theorem roundHalfEven_le_of_le_middle {num den n : Nat} (heven : n % 2 = 0)
    (h : 2 * num ≤ (2 * n + 1) * den) (hden : 0 < den) : roundHalfEven num den ≤ n := by
  have hmiddle : (2 * n + 1) * den = 2 * (n * den) + den := by ring
  rcases Nat.lt_or_eq_of_le h with hlt | htie
  · exact roundHalfEven_le_of_lt_middle hden hlt
  · -- The remainder is one half exactly.
    have hnum : num = (num - n * den) + den * n := by rw [Nat.mul_comm den n]; omega
    have hdiv : num / den = n := by
      rw [hnum, Nat.add_mul_div_left _ _ hden, Nat.div_eq_of_lt (by omega), Nat.zero_add]
    have hmod : num % den = num - n * den := by
      rw [hnum, Nat.add_mul_mod_self_left, Nat.mod_eq_of_lt (by omega), ← hnum]
    have hrest : 2 * (num - n * den) = den := by omega
    rw [roundHalfEven, hdiv, hmod, hrest, if_neg (Nat.lt_irrefl _), if_neg (Nat.lt_irrefl _)]
    omega

/-- **A larger quotient is not rounded to a smaller number.** -/
theorem roundHalfEven_mono {num den num' den' : Nat} (hden : 0 < den) (hden' : 0 < den')
    (h : num * den' ≤ num' * den) : roundHalfEven num den ≤ roundHalfEven num' den' := by
  generalize hn : roundHalfEven num' den' = n
  -- The larger quotient is not beyond the middle after the number that it is rounded to.
  have hupper : 2 * num' ≤ (2 * n + 1) * den' := by
    have hround := le_two_mul_roundHalfEven num' hden'
    rw [hn] at hround
    have hmiddle : (2 * n + 1) * den' = 2 * (n * den') + den' := by ring
    omega
  have hscaled : 2 * num * den' ≤ (2 * n + 1) * den * den' :=
    calc 2 * num * den' = 2 * (num * den') := by ring
      _ ≤ 2 * (num' * den) := Nat.mul_le_mul_left _ h
      _ = 2 * num' * den := by ring
      _ ≤ (2 * n + 1) * den' * den := Nat.mul_le_mul_right _ hupper
      _ = (2 * n + 1) * den * den' := by ring
  have hle := Nat.le_of_mul_le_mul_right hscaled hden'
  rcases Nat.mod_two_eq_zero_or_one n with heven | hodd
  · exact roundHalfEven_le_of_le_middle heven hle hden
  · refine roundHalfEven_le_of_lt_middle hden (Nat.lt_of_le_of_ne hle fun htie => ?_)
    -- At the middle after an odd number the larger quotient would be rounded up.
    have hreached : (2 * n + 1) * den' * den ≤ 2 * num' * den :=
      calc (2 * n + 1) * den' * den = (2 * n + 1) * den * den' := by ring
        _ = 2 * num * den' := by rw [htie]
        _ = 2 * (num * den') := by ring
        _ ≤ 2 * (num' * den) := Nat.mul_le_mul_left _ h
        _ = 2 * num' * den := by ring
    have hup := lt_roundHalfEven_of_middle_le hodd (Nat.le_of_mul_le_mul_right hreached hden) hden'
    omega

/-- The rounding depends on the quotient only. -/
theorem roundHalfEven_congr {num den num' den' : Nat} (hden : 0 < den) (hden' : 0 < den')
    (h : num * den' = num' * den) : roundHalfEven num den = roundHalfEven num' den' :=
  Nat.le_antisymm (roundHalfEven_mono hden hden' h.le) (roundHalfEven_mono hden' hden h.ge)

namespace Binary.Format

variable {f : Format}

/-! ### Mantissa and coarseness -/

/-- A mantissa `m` whose last place is `s` places coarser than the smallest: it fills the places of
    the format, unless the last place is the smallest. -/
structure Canonical (f : Format) (s m : Nat) : Prop where
  lt : m < 2 * 2 ^ f.fractionBits
  normal : s ≠ 0 → 2 ^ f.fractionBits ≤ m

/-- Every pattern without a sign has a mantissa and a coarseness. -/
theorem exists_canonical {bits : Nat} (h : bits < f.signBit) :
    ∃ s m, f.Canonical s m ∧ bits = s * 2 ^ f.fractionBits + m ∧ f.magnitude bits = m * 2 ^ s := by
  have hpos : 0 < 2 ^ f.fractionBits := Nat.two_pow_pos _
  rw [signBit, Nat.one_shiftLeft, Nat.pow_add] at h
  have hfield : f.exponent bits = bits / 2 ^ f.fractionBits := by
    rw [exponent, Nat.shiftRight_eq_div_pow, Nat.one_shiftLeft]
    exact Nat.mod_eq_of_lt (Nat.div_lt_of_lt_mul h)
  have hfraction : f.fraction bits = bits % 2 ^ f.fractionBits := by
    rw [fraction, Nat.one_shiftLeft]
  have hsplit := Nat.div_add_mod' bits (2 ^ f.fractionBits)
  have hlt := Nat.mod_lt bits hpos
  rw [magnitude, hfield, hfraction, unitsOf]
  generalize bits / 2 ^ f.fractionBits = e at *
  generalize bits % 2 ^ f.fractionBits = r at *
  -- The smallest exponent has no hidden place; every other one adds it to the fraction.
  cases e with
  | zero =>
    refine ⟨0, r, ⟨by omega, by simp⟩, by omega, by simp⟩
  | succ s =>
    refine ⟨s, 2 ^ f.fractionBits + r, ⟨by omega, fun _ => by omega⟩, ?_, ?_⟩
    · rw [← hsplit]; ring
    · rw [if_neg (Nat.succ_ne_zero s), Nat.shiftLeft_eq, Nat.one_shiftLeft, Nat.add_sub_cancel]

/-- The pattern determines the order of the numbers. -/
private theorem Canonical.mul_le {s m s' m' : Nat} (h : f.Canonical s m) (h' : f.Canonical s' m')
    (hle : s * 2 ^ f.fractionBits + m ≤ s' * 2 ^ f.fractionBits + m') :
    m * 2 ^ s ≤ m' * 2 ^ s' := by
  rcases Nat.lt_trichotomy s s' with hs | rfl | hs
  · -- One place coarser is as much as a full mantissa more.
    have hm' := h'.normal (by omega)
    calc m * 2 ^ s ≤ 2 * 2 ^ f.fractionBits * 2 ^ s := Nat.mul_le_mul_right _ h.lt.le
      _ = 2 ^ f.fractionBits * 2 ^ (s + 1) := by ring
      _ ≤ m' * 2 ^ s' := Nat.mul_le_mul hm' (Nat.pow_le_pow_right (by decide) hs)
  · exact Nat.mul_le_mul_right _ (by omega)
  · have hm := h.normal (by omega)
    have hmul : (s' + 1) * 2 ^ f.fractionBits ≤ s * 2 ^ f.fractionBits :=
      Nat.mul_le_mul_right _ hs
    have hlt := h'.lt
    -- The last place cannot be coarser by more than one without making the pattern greater.
    have hsame : s = s' + 1 := by
      by_contra hne
      have hmore : (s' + 2) * 2 ^ f.fractionBits ≤ s * 2 ^ f.fractionBits :=
        Nat.mul_le_mul_right _ (by omega)
      nlinarith
    nlinarith

/-- What a pattern stands for, by its mantissa. -/
theorem Canonical.magnitude_eq {s m : Nat} (hc : f.Canonical s m)
    (h : s * 2 ^ f.fractionBits + m < f.signBit) :
    f.magnitude (s * 2 ^ f.fractionBits + m) = m * 2 ^ s := by
  obtain ⟨s', m', hc', hsum, hm'⟩ := exists_canonical h
  rw [hm']
  exact Nat.le_antisymm (hc'.mul_le hc hsum.ge) (hc.mul_le hc' hsum.le)

/-- A larger pattern stands for a larger number. -/
theorem magnitude_mono {a b : Nat} (hle : a ≤ b) (h : b < f.signBit) :
    f.magnitude a ≤ f.magnitude b := by
  obtain ⟨s, m, hc, ha, hma⟩ := exists_canonical (Nat.lt_of_le_of_lt hle h)
  obtain ⟨s', m', hc', hb, hmb⟩ := exists_canonical h
  rw [hma, hmb]
  exact hc.mul_le hc' (by rw [← ha, ← hb]; exact hle)

/-- Infinity is a pattern without a sign. -/
theorem infinityBits_lt_signBit (f : Format) : f.infinityBits < f.signBit := by
  have hpos : 0 < 2 ^ f.exponentBits := Nat.two_pow_pos _
  rw [infinityBits, signBit, Nat.shiftLeft_eq, Nat.one_shiftLeft, Nat.one_shiftLeft, Nat.pow_add,
    Nat.mul_comm (2 ^ f.fractionBits)]
  exact Nat.mul_lt_mul_of_pos_right (by omega) (Nat.two_pow_pos _)

/-- Nothing is rounded beyond infinity. -/
theorem nearest_lt_signBit (num den : Nat) : f.nearest num den < f.signBit :=
  Nat.lt_of_le_of_lt (Nat.min_le_left _ _) f.infinityBits_lt_signBit

/-! ### Rounding to patterns -/

section Nearest

variable {num den num' den' : Nat}

/-- One is at least as large as the smallest number. -/
theorem unitsPerOne_pos (f : Format) : 0 < f.unitsPerOne := by
  rw [unitsPerOne, Nat.one_shiftLeft]
  exact Nat.two_pow_pos _

/-- The quotient in units of the last place has no more places than the format. -/
private theorem scaled_lt (hden : 0 < den) (scaled : Nat) :
    scaled < 2 * 2 ^ f.fractionBits * (den * 2 ^ f.coarseness (scaled / den)) := by
  have hq : scaled / den < 2 ^ (f.coarseness (scaled / den) + f.fractionBits + 1) := by
    rcases Nat.eq_zero_or_pos (scaled / den) with hzero | hpos
    · rw [hzero]; exact Nat.two_pow_pos _
    · refine (Nat.log2_lt hpos.ne').mp ?_
      rw [coarseness]
      omega
  have hlt := (Nat.div_lt_iff_lt_mul hden).mp hq
  calc scaled < 2 ^ (f.coarseness (scaled / den) + f.fractionBits + 1) * den := hlt
    _ = _ := by ring

/-- Unless its last place is the smallest, the quotient fills the places of the format. -/
private theorem le_scaled (hden : 0 < den) (scaled : Nat) (h : f.coarseness (scaled / den) ≠ 0) :
    2 ^ f.fractionBits * (den * 2 ^ f.coarseness (scaled / den)) ≤ scaled := by
  have hpos : scaled / den ≠ 0 := by
    intro hzero
    rw [hzero] at h
    exact h (by simp [coarseness])
  have hq : 2 ^ (f.coarseness (scaled / den) + f.fractionBits) ≤ scaled / den := by
    refine (Nat.le_log2 hpos).mp ?_
    rw [coarseness] at h ⊢
    omega
  have hle := (Nat.le_div_iff_mul_le hden).mp hq
  calc _ = 2 ^ (f.coarseness (scaled / den) + f.fractionBits) * den := by ring
    _ ≤ scaled := hle

/-- What is below the middle between a mantissa and the next is not rounded to the next. -/
private theorem Canonical.nearest_le {s m : Nat} (hc : f.Canonical s m) (hden : 0 < den)
    (h : 2 * (num * f.unitsPerOne) < (2 * m + 1) * (den * 2 ^ s)) :
    f.nearest num den ≤ s * 2 ^ f.fractionBits + m := by
  rw [nearest]
  refine Nat.le_trans (Nat.min_le_right _ _) ?_
  rw [Nat.shiftLeft_eq, Nat.shiftLeft_eq]
  generalize hscaled : num * f.unitsPerOne = scaled at *
  have hupper := scaled_lt (f := f) hden scaled
  have hlower := le_scaled (f := f) hden scaled
  generalize f.coarseness (scaled / den) = shift at *
  have hplaces : 0 < den * 2 ^ shift := Nat.mul_pos hden (Nat.two_pow_pos _)
  have hfull := roundHalfEven_le hplaces hupper.le
  -- The quotient is rounded with a finer, the same or a coarser last place than the pattern has.
  rcases Nat.lt_trichotomy shift s with hs | rfl | hs
  · have hnormal := hc.normal (by omega)
    have hmul : (shift + 1) * 2 ^ f.fractionBits ≤ s * 2 ^ f.fractionBits :=
      Nat.mul_le_mul_right _ hs
    rw [Nat.add_mul, Nat.one_mul] at hmul
    omega
  · exact Nat.add_le_add_left (roundHalfEven_le_of_lt_middle hplaces h) _
  · -- A coarser last place would need a larger number.
    exfalso
    have hscale : 0 < den * 2 ^ s := Nat.mul_pos hden (Nat.two_pow_pos _)
    have hpow : 2 ^ (s + 1) ≤ 2 ^ shift := Nat.pow_le_pow_right (by decide) hs
    have hlt := hc.lt
    have hmore : (2 * (2 * 2 ^ f.fractionBits)) * (den * 2 ^ s) < (2 * m + 1) * (den * 2 ^ s) :=
      calc (2 * (2 * 2 ^ f.fractionBits)) * (den * 2 ^ s)
          = 2 * (2 ^ f.fractionBits * (den * 2 ^ (s + 1))) := by ring
        _ ≤ 2 * (2 ^ f.fractionBits * (den * 2 ^ shift)) :=
            Nat.mul_le_mul_left _ (Nat.mul_le_mul_left _ (Nat.mul_le_mul_left _ hpow))
        _ ≤ 2 * scaled := Nat.mul_le_mul_left _ (hlower (by omega))
        _ < _ := h
    have := Nat.lt_of_mul_lt_mul_right hmore
    omega

/-- What is at most the number of a pattern is rounded to at most that pattern. -/
theorem nearest_le {bits : Nat} (hden : 0 < den) (hbits : bits < f.signBit)
    (h : num * f.unitsPerOne ≤ f.magnitude bits * den) : f.nearest num den ≤ bits := by
  obtain ⟨s, m, hc, rfl, hm⟩ := exists_canonical hbits
  refine hc.nearest_le hden ?_
  have hpos : 0 < den * 2 ^ s := Nat.mul_pos hden (Nat.two_pow_pos _)
  rw [hm] at h
  calc 2 * (num * f.unitsPerOne) ≤ 2 * (m * 2 ^ s * den) := Nat.mul_le_mul_left _ h
    _ = 2 * m * (den * 2 ^ s) := by ring
    _ < (2 * m + 1) * (den * 2 ^ s) := Nat.mul_lt_mul_of_pos_right (Nat.lt_succ_self _) hpos

/-- The next pattern stands for a mantissa with one more in the last place. -/
private theorem magnitude_succ {s m : Nat} (hc : f.Canonical s m)
    (h : s * 2 ^ f.fractionBits + m + 1 < f.signBit) :
    f.magnitude (s * 2 ^ f.fractionBits + m + 1) = (m + 1) * 2 ^ s := by
  obtain ⟨s', m', hc', hbits, hm'⟩ := exists_canonical h
  rw [hm']
  have hpos : 0 < 2 ^ f.fractionBits := Nat.two_pow_pos _
  have hlt := hc.lt
  by_cases hfull : m + 1 < 2 * 2 ^ f.fractionBits
  · have hcanonical : f.Canonical s (m + 1) := ⟨hfull, fun hs => (hc.normal hs).trans (by omega)⟩
    exact Nat.le_antisymm (hc'.mul_le hcanonical (by omega)) (hcanonical.mul_le hc' (by omega))
  · -- A full mantissa is half of one with a coarser last place.
    have hcanonical : f.Canonical (s + 1) (2 ^ f.fractionBits) :=
      ⟨by omega, fun _ => Nat.le_refl _⟩
    have hsplit : (s + 1) * 2 ^ f.fractionBits = s * 2 ^ f.fractionBits + 2 ^ f.fractionBits := by
      ring
    have hsame : (m + 1) * 2 ^ s = 2 ^ f.fractionBits * 2 ^ (s + 1) := by
      rw [show m + 1 = 2 * 2 ^ f.fractionBits by omega]; ring
    rw [hsame]
    exact Nat.le_antisymm (hc'.mul_le hcanonical (by omega)) (hcanonical.mul_le hc' (by omega))

/-- What is below the middle between a pattern and the next is rounded to at most that pattern. -/
theorem nearest_le_of_lt_middle {bits : Nat} (hden : 0 < den) (hbits : bits + 1 < f.signBit)
    (h : 2 * (num * f.unitsPerOne) < (f.magnitude bits + f.magnitude (bits + 1)) * den) :
    f.nearest num den ≤ bits := by
  obtain ⟨s, m, hc, rfl, hm⟩ := exists_canonical (Nat.lt_of_succ_lt hbits)
  refine hc.nearest_le hden ?_
  rw [hm, magnitude_succ hc hbits] at h
  calc 2 * (num * f.unitsPerOne) < (m * 2 ^ s + (m + 1) * 2 ^ s) * den := h
    _ = (2 * m + 1) * (den * 2 ^ s) := by ring

/-- What is at least the number of a finite pattern is rounded to at least that pattern. -/
theorem le_nearest {bits : Nat} (hden : 0 < den) (hbits : bits < f.signBit)
    (hfinite : bits ≤ f.infinityBits) (h : f.magnitude bits * den ≤ num * f.unitsPerOne) :
    bits ≤ f.nearest num den := by
  obtain ⟨s, m, hc, rfl, hm⟩ := exists_canonical hbits
  rw [hm] at h
  rw [nearest]
  refine Nat.le_min.mpr ⟨hfinite, ?_⟩
  rw [Nat.shiftLeft_eq, Nat.shiftLeft_eq]
  generalize hscaled : num * f.unitsPerOne = scaled at *
  have hupper := scaled_lt (f := f) hden scaled
  have hlower := le_scaled (f := f) hden scaled
  generalize f.coarseness (scaled / den) = shift at *
  have hplaces : 0 < den * 2 ^ shift := Nat.mul_pos hden (Nat.two_pow_pos _)
  -- The pattern has a finer, the same or a coarser last place than the quotient is rounded with.
  rcases Nat.lt_trichotomy s shift with hs | rfl | hs
  · have hfull := le_roundHalfEven hplaces (hlower (by omega))
    have hmul : (s + 1) * 2 ^ f.fractionBits ≤ shift * 2 ^ f.fractionBits :=
      Nat.mul_le_mul_right _ hs
    rw [Nat.add_mul, Nat.one_mul] at hmul
    have hlt := hc.lt
    omega
  · have hround := le_roundHalfEven (n := m) hplaces (by
      calc m * (den * 2 ^ s) = m * 2 ^ s * den := by ring
        _ ≤ scaled := h)
    omega
  · -- A finer last place would need a smaller number.
    exfalso
    have hpow : 2 ^ (shift + 1) ≤ 2 ^ s := Nat.pow_le_pow_right (by decide) hs
    have hnormal := hc.normal (by omega)
    have hchain : 2 * 2 ^ f.fractionBits * (den * 2 ^ shift) ≤ scaled :=
      calc 2 * 2 ^ f.fractionBits * (den * 2 ^ shift)
          = 2 ^ f.fractionBits * 2 ^ (shift + 1) * den := by ring
        _ ≤ m * 2 ^ s * den := Nat.mul_le_mul_right _ (Nat.mul_le_mul hnormal hpow)
        _ ≤ scaled := h
    omega

/-- The middle between a pattern that is odd and the next is rounded to the next at least. -/
theorem lt_nearest_of_middle_le {bits : Nat} (hden : 0 < den) (hbits : bits < f.infinityBits)
    (hfraction : f.fractionBits ≠ 0) (hodd : bits % 2 = 1)
    (h : (f.magnitude bits + f.magnitude (bits + 1)) * den ≤ 2 * (num * f.unitsPerOne)) :
    bits < f.nearest num den := by
  have hsign : bits + 1 < f.signBit := Nat.lt_of_le_of_lt hbits f.infinityBits_lt_signBit
  obtain ⟨s, m, hc, rfl, hm⟩ := exists_canonical (Nat.lt_of_succ_lt hsign)
  have hmodd : m % 2 = 1 := by
    have heven : s * 2 ^ f.fractionBits % 2 = 0 := by
      obtain ⟨k, hk⟩ := Nat.exists_eq_succ_of_ne_zero hfraction
      rw [hk, Nat.pow_succ, ← Nat.mul_assoc, Nat.mul_mod_left]
    omega
  have hmiddle : (2 * m + 1) * (den * 2 ^ s) ≤ 2 * (num * f.unitsPerOne) := by
    rw [hm, magnitude_succ hc hsign] at h
    calc (2 * m + 1) * (den * 2 ^ s) = (m * 2 ^ s + (m + 1) * 2 ^ s) * den := by ring
      _ ≤ _ := h
  rw [nearest]
  refine Nat.lt_min.mpr ⟨hbits, ?_⟩
  rw [Nat.shiftLeft_eq, Nat.shiftLeft_eq]
  generalize hscaled : num * f.unitsPerOne = scaled at *
  have hupper := scaled_lt (f := f) hden scaled
  have hlower := le_scaled (f := f) hden scaled
  generalize f.coarseness (scaled / den) = shift at *
  have hplaces : 0 < den * 2 ^ shift := Nat.mul_pos hden (Nat.two_pow_pos _)
  -- The pattern has a finer, the same or a coarser last place than the quotient is rounded with.
  rcases Nat.lt_trichotomy s shift with hs | rfl | hs
  · have hfull := le_roundHalfEven hplaces (hlower (by omega))
    have hmul : (s + 1) * 2 ^ f.fractionBits ≤ shift * 2 ^ f.fractionBits :=
      Nat.mul_le_mul_right _ hs
    rw [Nat.add_mul, Nat.one_mul] at hmul
    have hlt := hc.lt
    omega
  · exact Nat.add_lt_add_left (lt_roundHalfEven_of_middle_le hmodd hmiddle hplaces) _
  · -- A finer last place would need a smaller number.
    exfalso
    have hnormal := hc.normal (by omega)
    have hpow : 2 ^ (shift + 1) ≤ 2 ^ s := Nat.pow_le_pow_right (by decide) hs
    have hchain : 2 * (2 * 2 ^ f.fractionBits * (den * 2 ^ shift)) ≤ 2 * scaled :=
      calc 2 * (2 * 2 ^ f.fractionBits * (den * 2 ^ shift))
          = 2 * 2 ^ f.fractionBits * (den * 2 ^ (shift + 1)) := by ring
        _ ≤ (2 * m + 1) * (den * 2 ^ s) :=
            Nat.mul_le_mul (by omega) (Nat.mul_le_mul_left _ hpow)
        _ ≤ 2 * scaled := hmiddle
    omega

/-! ### Rounding keeps the order -/

/-- The pattern nearest to a quotient that is counted in units. -/
def nearestUnits (f : Format) (units den : Nat) : Nat :=
  min f.infinityBits (f.coarseness (units / den) * 2 ^ f.fractionBits +
    roundHalfEven units (den * 2 ^ f.coarseness (units / den)))

/-- Rounding a quotient is rounding its units. -/
theorem nearest_eq_nearestUnits (num den : Nat) :
    f.nearest num den = f.nearestUnits (num * f.unitsPerOne) den := by
  rw [nearest, nearestUnits, Nat.shiftLeft_eq, Nat.shiftLeft_eq]

/-- A larger number is not finer. -/
theorem coarseness_mono {a b : Nat} (h : a ≤ b) : f.coarseness a ≤ f.coarseness b := by
  refine Nat.sub_le_sub_right ?_ _
  rcases Nat.eq_zero_or_pos a with rfl | hpos
  · exact Nat.zero_le _
  · exact (Nat.le_log2 (by omega)).mpr ((Nat.log2_self_le hpos.ne').trans h)

/-- **A larger quotient is not rounded to a smaller pattern.** -/
theorem nearestUnits_mono {units units' : Nat} (hden : 0 < den) (hden' : 0 < den')
    (h : units * den' ≤ units' * den) : f.nearestUnits units den ≤ f.nearestUnits units' den' := by
  rw [nearestUnits, nearestUnits]
  refine min_le_min_left _ ?_
  have hquotient : units / den ≤ units' / den' := by
    refine (Nat.le_div_iff_mul_le hden').mpr (Nat.le_of_mul_le_mul_right ?_ hden)
    calc units / den * den' * den = units / den * den * den' := by ring
      _ ≤ units * den' := Nat.mul_le_mul_right _ (Nat.div_mul_le_self _ _)
      _ ≤ units' * den := h
  have hcoarse := coarseness_mono (f := f) hquotient
  have hupper := scaled_lt (f := f) hden units
  have hlower := le_scaled (f := f) hden' units'
  generalize f.coarseness (units / den) = s at *
  generalize f.coarseness (units' / den') = s' at *
  have hplaces : 0 < den * 2 ^ s := Nat.mul_pos hden (Nat.two_pow_pos _)
  have hplaces' : 0 < den' * 2 ^ s' := Nat.mul_pos hden' (Nat.two_pow_pos _)
  rcases Nat.lt_or_eq_of_le hcoarse with hs | rfl
  · -- The last place of the larger number is coarser: one more place is worth a full mantissa.
    have hfull := roundHalfEven_le hplaces hupper.le
    have hfull' := le_roundHalfEven hplaces' (hlower (by omega))
    have hmul : (s + 1) * 2 ^ f.fractionBits ≤ s' * 2 ^ f.fractionBits := Nat.mul_le_mul_right _ hs
    rw [Nat.add_mul, Nat.one_mul] at hmul
    omega
  -- With the same last place the mantissas are rounded in order.
  · refine Nat.add_le_add_left (roundHalfEven_mono hplaces hplaces' ?_) _
    calc units * (den' * 2 ^ s) = units * den' * 2 ^ s := by ring
      _ ≤ units' * den * 2 ^ s := Nat.mul_le_mul_right _ h
      _ = units' * (den * 2 ^ s) := by ring

/-- The nearest pattern depends on the quotient only. -/
theorem nearestUnits_congr {units units' : Nat} (hden : 0 < den) (hden' : 0 < den')
    (h : units * den' = units' * den) : f.nearestUnits units den = f.nearestUnits units' den' :=
  Nat.le_antisymm (nearestUnits_mono hden hden' h.le) (nearestUnits_mono hden' hden h.ge)

/-- A larger quotient is not rounded to a smaller number. -/
theorem nearest_mono (hden : 0 < den) (hden' : 0 < den') (h : num * den' ≤ num' * den) :
    f.nearest num den ≤ f.nearest num' den' := by
  rw [nearest_eq_nearestUnits, nearest_eq_nearestUnits]
  refine nearestUnits_mono hden hden' ?_
  calc num * f.unitsPerOne * den' = num * den' * f.unitsPerOne := by ring
    _ ≤ num' * den * f.unitsPerOne := Nat.mul_le_mul_right _ h
    _ = num' * f.unitsPerOne * den := by ring

/-! ### The rounding error -/

/-- What the last place is worth that a quotient is rounded to, in smallest places. -/
def lastPlace (f : Format) (num den : Nat) : Nat := 2 ^ f.coarseness (num * f.unitsPerOne / den)

/-- A last place that is not the smallest is small beside the quotient. -/
theorem lastPlace_small (num : Nat) (hden : 0 < den) :
    2 ^ f.fractionBits * (den * f.lastPlace num den)
      ≤ num * f.unitsPerOne + 2 ^ f.fractionBits * den := by
  have hlower := le_scaled (f := f) hden (num * f.unitsPerOne)
  rw [lastPlace]
  by_cases hs : f.coarseness (num * f.unitsPerOne / den) = 0
  · rw [hs, Nat.pow_zero, Nat.mul_one]
    omega
  · have := hlower hs
    omega

/-- A quotient that fills no more than the places of the format from a last place on is rounded to
    that place or a finer one. -/
theorem lastPlace_le {s : Nat} (hden : 0 < den)
    (h : num * f.unitsPerOne < 2 ^ (s + f.fractionBits + 1) * den) :
    f.lastPlace num den ≤ 2 ^ s := by
  refine Nat.pow_le_pow_right (by decide) ?_
  have hquotient := (Nat.div_lt_iff_lt_mul hden).mpr h
  rcases Nat.eq_zero_or_pos (num * f.unitsPerOne / den) with hzero | hpos
  · rw [hzero]
    simp [coarseness]
  · have hlog := (Nat.log2_lt hpos.ne').mpr hquotient
    rw [coarseness]
    omega

/-- Rounding goes wrong by at most half a last place. What is rounded to infinity is only known to
    be no larger. -/
theorem magnitude_nearest_lastPlace (num : Nat) (hden : 0 < den) :
    2 * (f.magnitude (f.nearest num den) * den)
        ≤ 2 * (num * f.unitsPerOne) + den * f.lastPlace num den ∧
      (f.nearest num den < f.infinityBits →
        2 * (num * f.unitsPerOne)
          ≤ 2 * (f.magnitude (f.nearest num den) * den) + den * f.lastPlace num den) := by
  obtain ⟨s', m', hc', hbits, hm'⟩ := exists_canonical (f.nearest_lt_signBit num den)
  rw [hm', lastPlace]
  rw [nearest, Nat.shiftLeft_eq, Nat.shiftLeft_eq] at hbits ⊢
  generalize num * f.unitsPerOne = scaled at *
  have hupper := scaled_lt (f := f) hden scaled
  have hlower := le_scaled (f := f) hden scaled
  generalize f.coarseness (scaled / den) = shift at *
  have hplaces : 0 < den * 2 ^ shift := Nat.mul_pos hden (Nat.two_pow_pos _)
  have hfull := roundHalfEven_le hplaces hupper.le
  have hround := two_mul_roundHalfEven_le scaled hplaces
  have hround' := le_two_mul_roundHalfEven scaled hplaces
  have hnormal : shift ≠ 0 → 2 ^ f.fractionBits ≤ roundHalfEven scaled (den * 2 ^ shift) :=
    fun hs => le_roundHalfEven hplaces (hlower hs)
  generalize roundHalfEven scaled (den * 2 ^ shift) = r at *
  -- The pattern stands for the rounded quotient, unless it is that of infinity.
  obtain ⟨s, m, hc, hsum, hm⟩ : ∃ s m, f.Canonical s m ∧
      shift * 2 ^ f.fractionBits + r = s * 2 ^ f.fractionBits + m ∧ r * 2 ^ shift = m * 2 ^ s := by
    rcases Nat.lt_or_eq_of_le hfull with hlt | rfl
    · exact ⟨shift, r, ⟨hlt, hnormal⟩, rfl, rfl⟩
    · have hpos : 0 < 2 ^ f.fractionBits := Nat.two_pow_pos _
      exact ⟨shift + 1, 2 ^ f.fractionBits, ⟨by omega, fun _ => Nat.le_refl _⟩, by ring, by ring⟩
  have hle : m' * 2 ^ s' ≤ r * 2 ^ shift := by
    rw [hm]
    exact hc'.mul_le hc (by omega)
  constructor
  · have hmul : m' * 2 ^ s' * den ≤ r * 2 ^ shift * den := Nat.mul_le_mul_right _ hle
    have hcomm : r * 2 ^ shift * den = r * (den * 2 ^ shift) := by ring
    omega
  · intro hfinite
    have hge : r * 2 ^ shift ≤ m' * 2 ^ s' := by
      rw [hm]
      exact hc.mul_le hc' (by omega)
    have hmul : r * 2 ^ shift * den ≤ m' * 2 ^ s' * den := Nat.mul_le_mul_right _ hge
    have hcomm : r * 2 ^ shift * den = r * (den * 2 ^ shift) := by ring
    omega

/-- Rounding adds at most one part in twice the number of mantissas, or half of the smallest
    number. -/
theorem magnitude_nearest_le (num : Nat) (hden : 0 < den) :
    2 * 2 ^ f.fractionBits * (f.magnitude (f.nearest num den) * den)
      ≤ (2 * 2 ^ f.fractionBits + 1) * (num * f.unitsPerOne) + 2 ^ f.fractionBits * den := by
  have hplace := lastPlace_small (f := f) num hden
  obtain ⟨hround, -⟩ := magnitude_nearest_lastPlace (f := f) num hden
  -- Half of the last place is at most one part in twice the number of mantissas.
  generalize f.lastPlace num den = place at *
  calc 2 * 2 ^ f.fractionBits * (f.magnitude (f.nearest num den) * den)
      = 2 ^ f.fractionBits * (2 * (f.magnitude (f.nearest num den) * den)) := by ring
    _ ≤ 2 ^ f.fractionBits * (2 * (num * f.unitsPerOne) + den * place) :=
        Nat.mul_le_mul_left _ hround
    _ = 2 * 2 ^ f.fractionBits * (num * f.unitsPerOne) + 2 ^ f.fractionBits * (den * place) := by
        ring
    _ ≤ 2 * 2 ^ f.fractionBits * (num * f.unitsPerOne)
          + (num * f.unitsPerOne + 2 ^ f.fractionBits * den) := Nat.add_le_add_left hplace _
    _ = _ := by ring

/-- What is not rounded to infinity loses at most as much. -/
theorem le_magnitude_nearest (hden : 0 < den) (hfinite : f.nearest num den < f.infinityBits) :
    2 * 2 ^ f.fractionBits * (num * f.unitsPerOne)
      ≤ 2 * 2 ^ f.fractionBits * (f.magnitude (f.nearest num den) * den)
        + (num * f.unitsPerOne + 2 ^ f.fractionBits * den) := by
  have hplace := lastPlace_small (f := f) num hden
  obtain ⟨-, hround⟩ := magnitude_nearest_lastPlace (f := f) num hden
  generalize f.lastPlace num den = place at *
  calc 2 * 2 ^ f.fractionBits * (num * f.unitsPerOne)
      = 2 ^ f.fractionBits * (2 * (num * f.unitsPerOne)) := by ring
    _ ≤ 2 ^ f.fractionBits * (2 * (f.magnitude (f.nearest num den) * den) + den * place) :=
        Nat.mul_le_mul_left _ (hround hfinite)
    -- The same bound on the last place, from the other side.
    _ = 2 * 2 ^ f.fractionBits * (f.magnitude (f.nearest num den) * den)
          + 2 ^ f.fractionBits * (den * place) := by ring
    _ ≤ _ := Nat.add_le_add_left hplace _

end Nearest

end Binary.Format

end ClosedLoop
