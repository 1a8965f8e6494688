import ClosedLoop.Proofs.Seconds
import ClosedLoop.Proofs.Stats.MeanError

namespace ClosedLoop

/-!
# Spans through floating-point seconds

A span that is turned into floating-point seconds and back need not come out as it was. Seconds
below `2 ^ 23` have last places that are finer than a nanosecond, so the span comes out; beyond, it
is off by a part of itself.

* `Binary.magnitude_nearest_whole` — whole numbers below `2 ^ 53` are not rounded;
* `Binary.magnitude_nearest_below` — quotients below `2 ^ k` are rounded by `2 ^ (k - 54)` at most;
* `Span.ofSeconds_toSeconds_of_close` — a span comes out if its seconds are off by less than half a
  nanosecond;
* `Span.ofSeconds_toSeconds_of_le`, `Span.ofSeconds_toSeconds_of_whole` — **short spans and whole
  seconds come out as they were**;
* `Span.ofSeconds_toSeconds_le`, `Span.le_ofSeconds_toSeconds` — no span is off by more than one
  part in `2 ^ 50`.
-/

open Binary

namespace Binary

/-! ### Whole numbers as doubles -/

/-- Whole numbers with no more places than a mantissa are doubles. -/
theorem exists_whole_pattern {n : Nat} (h : n < 2 ^ 53) :
    ∃ p ≤ double.infinityBits, double.magnitude p = n * double.unitsPerOne := by
  rcases Nat.eq_zero_or_pos n with rfl | hpos
  · exact ⟨0, Nat.zero_le _, by decide⟩
  · -- The mantissa is shifted until it fills its places.
    have hlog : n.log2 < 53 := (Nat.log2_lt hpos.ne').mpr h
    have hlow : 2 ^ n.log2 ≤ n := Nat.log2_self_le hpos.ne'
    have hhigh : n < 2 ^ (n.log2 + 1) := Nat.lt_log2_self
    generalize n.log2 = e at *
    have hplaces : 2 ^ e * 2 ^ (52 - e) = 2 ^ 52 := by
      rw [← Nat.pow_add]
      congr 1
      omega
    have hcanonical : double.Canonical (1022 + e) (n * 2 ^ (52 - e)) := by
      constructor
      · show n * 2 ^ (52 - e) < 2 * 2 ^ 52
        calc n * 2 ^ (52 - e) < 2 ^ (e + 1) * 2 ^ (52 - e) :=
              Nat.mul_lt_mul_of_pos_right hhigh (Nat.two_pow_pos _)
          _ = 2 * 2 ^ 52 := by rw [← hplaces, Nat.pow_succ]; ring
      · intro _
        show 2 ^ 52 ≤ n * 2 ^ (52 - e)
        rw [← hplaces]
        exact Nat.mul_le_mul_right _ hlow
    -- The exponent is far from that of infinity.
    have hfinite : (1022 + e) * 2 ^ 52 + n * 2 ^ (52 - e) ≤ double.infinityBits := by
      have hlt : n * 2 ^ (52 - e) < 2 * 2 ^ 52 := hcanonical.lt
      rw [Double.infinityBits_eq]
      omega
    refine ⟨_, hfinite, ?_⟩
    have hsign := Nat.lt_of_le_of_lt hfinite double.infinityBits_lt_signBit
    have hvalue : double.magnitude ((1022 + e) * 2 ^ 52 + n * 2 ^ (52 - e)) =
        n * 2 ^ (52 - e) * 2 ^ (1022 + e) := hcanonical.magnitude_eq hsign
    have hone : double.unitsPerOne = 2 ^ (52 - e) * 2 ^ (1022 + e) := by
      rw [← Nat.pow_add, show 52 - e + (1022 + e) = 1074 by omega]
      decide +kernel
    rw [hvalue, hone, Nat.mul_assoc]

/-- Whole numbers with no more places than a mantissa are not rounded. -/
theorem magnitude_nearest_whole {n : Nat} (h : n < 2 ^ 53) :
    double.magnitude (double.nearest n 1) = n * double.unitsPerOne := by
  have hone := Format.unitsPerOne_pos double
  obtain ⟨p, hp, hvalue⟩ := exists_whole_pattern h
  have hsame : double.nearest n 1 = double.nearest (double.magnitude p) double.unitsPerOne := by
    rw [hvalue]
    apply Nat.le_antisymm
    · exact Format.nearest_mono Nat.one_pos hone (by omega)
    · exact Format.nearest_mono hone Nat.one_pos (by omega)
  rw [hsame, Double.nearest_magnitude hp, hvalue]

/-! ### Half of a last place -/

/-- A quotient below `2 ^ k` is rounded by `2 ^ (k - 54)` at most. -/
theorem magnitude_nearest_below {num den k : Nat} (hden : 0 < den) (hk : k ≤ 53)
    (h : num < 2 ^ k * den) :
    2 ^ (54 - k) * (double.magnitude (double.nearest num den) * den)
        ≤ 2 ^ (54 - k) * (num * double.unitsPerOne) + den * double.unitsPerOne ∧
      2 ^ (54 - k) * (num * double.unitsPerOne)
        ≤ 2 ^ (54 - k) * (double.magnitude (double.nearest num den) * den)
          + den * double.unitsPerOne := by
  have hpos := Format.unitsPerOne_pos double
  have htwice : 2 ^ (54 - k) = 2 ^ (53 - k) * 2 := by
    rw [← Nat.pow_succ]
    congr 1
    omega
  -- The last places of the numbers just below one are worth `2 ^ e` units.
  obtain ⟨e, hone⟩ : ∃ e, double.unitsPerOne = 2 ^ e * 2 ^ 53 := ⟨1021, by decide +kernel⟩
  have hplace : double.lastPlace num den ≤ 2 ^ (e + k) := by
    apply Format.lastPlace_le hden
    show num * double.unitsPerOne < 2 ^ (e + k + 53) * den
    calc num * double.unitsPerOne < 2 ^ k * den * double.unitsPerOne :=
          Nat.mul_lt_mul_of_pos_right h hpos
      _ = 2 ^ (e + k + 53) * den := by
          rw [hone, Nat.pow_add, Nat.pow_add]
          ring
  have hplaces : 2 ^ (53 - k) * (den * double.lastPlace num den) ≤ den * double.unitsPerOne := by
    have hfull : 2 ^ (53 - k) * 2 ^ k = 2 ^ 53 := by rw [← Nat.pow_add, Nat.sub_add_cancel hk]
    calc 2 ^ (53 - k) * (den * double.lastPlace num den)
        ≤ 2 ^ (53 - k) * (den * 2 ^ (e + k)) :=
          Nat.mul_le_mul_left _ (Nat.mul_le_mul_left _ hplace)
      _ = den * (2 ^ e * (2 ^ (53 - k) * 2 ^ k)) := by
          rw [Nat.pow_add]
          ring
      _ = den * double.unitsPerOne := by rw [hfull, hone]
  have hfinite : double.nearest num den < double.infinityBits := by
    have hvalue : double.magnitude 0x4340000000000000 = 2 ^ 53 * double.unitsPerOne := by decide
    have hbits : double.nearest num den ≤ 0x4340000000000000 := by
      apply Format.nearest_le hden (by decide)
      rw [hvalue]
      calc num * double.unitsPerOne ≤ 2 ^ 53 * den * double.unitsPerOne :=
            Nat.mul_le_mul_right _ (h.le.trans
              (Nat.mul_le_mul_right _ (Nat.pow_le_pow_right (by decide) hk)))
        _ = 2 ^ 53 * double.unitsPerOne * den := by ring
    exact Nat.lt_of_le_of_lt hbits (by decide)
  obtain ⟨hle, hge⟩ := Format.magnitude_nearest_lastPlace (f := double) num hden
  rw [htwice, Nat.mul_assoc, Nat.mul_assoc]
  constructor
  · have hscaled := Nat.mul_le_mul_left (2 ^ (53 - k)) hle
    rw [Nat.mul_add] at hscaled
    omega
  · have hscaled := Nat.mul_le_mul_left (2 ^ (53 - k)) (hge hfinite)
    rw [Nat.mul_add] at hscaled
    omega

end Binary

namespace Span

variable {a : Span}

/-- The seconds of a span are finite. -/
theorem secondsBits_finite (a : Span) : a.secondsBits < double.infinityBits :=
  Nat.lt_of_le_of_lt a.secondsBits_le_beyond_longest (by decide)

/-- A span after it was turned into seconds and back. -/
theorem nanos_ofSeconds_toSeconds (a : Span) : (ofSeconds a.toSeconds).nanos =
    min (nanosOf (double.magnitude a.secondsBits)) longest.nanos := by
  have hp := Double.hasPattern_ofBits a.secondsBits_finite.le
  obtain ⟨negative, hexact, hzero⟩ := hp.exact_eq a.secondsBits_finite
  apply nanos_ofSeconds hexact
  intro hnegative
  rw [hzero hnegative, Double.magnitude_zero]

/-- A number of seconds that is less than half a nanosecond away from a span is turned into it. -/
theorem ofSeconds_toSeconds_of_close
    (hle : 2 * (a.nanos * double.unitsPerOne)
      < 2 * (double.magnitude a.secondsBits * 1000000000) + double.unitsPerOne)
    (hge : 2 * (double.magnitude a.secondsBits * 1000000000)
      < 2 * (a.nanos * double.unitsPerOne) + double.unitsPerOne) :
    ofSeconds a.toSeconds = a := by
  -- Less than half a unit away, the span is the nearest whole number.
  have hnearest : IsNearest (double.magnitude a.secondsBits * 1000000000) double.unitsPerOne
      a.nanos := ⟨hle.le, hge.le, by omega⟩
  have hnanos : nanosOf (double.magnitude a.secondsBits) = a.nanos :=
    (hnearest.eq (Format.unitsPerOne_pos double)).symm
  have hlt := a.nanos_lt
  have hlongest : longest.nanos = UInt64.size * 1000000000 - 1 := rfl
  apply Span.ext
  rw [nanos_ofSeconds_toSeconds, hnanos]
  omega

/-! ### Short spans and whole seconds -/

/-- The part of a second that a span has beside its whole seconds, in floating point. -/
def shareBits (a : Span) : Nat :=
  double.quotient (double.nearest (a.nanos % 1000000000) 1) (double.nearest 1000000000 1)

/-- The part of a second is rounded by `2 ^ -54` at most. -/
theorem shareBits_close (a : Span) :
    2 ^ 54 * (double.magnitude a.shareBits * 1000000000)
        ≤ 2 ^ 54 * (a.nanos % 1000000000 * double.unitsPerOne)
          + 1000000000 * double.unitsPerOne ∧
      2 ^ 54 * (a.nanos % 1000000000 * double.unitsPerOne)
        ≤ 2 ^ 54 * (double.magnitude a.shareBits * 1000000000)
          + 1000000000 * double.unitsPerOne := by
  have hpos := Format.unitsPerOne_pos double
  have hsmall := Nat.mod_lt a.nanos (show 0 < 1000000000 by decide)
  rw [shareBits, Format.quotient, units_billion,
    magnitude_nearest_whole (Nat.lt_trans hsmall (by decide))]
  generalize a.nanos % 1000000000 = rest at *
  have hden : 0 < 1000000000 * double.unitsPerOne := Nat.mul_pos (by decide) hpos
  have hlt : rest * double.unitsPerOne < 2 ^ 0 * (1000000000 * double.unitsPerOne) := by
    rw [Nat.pow_zero, Nat.one_mul]
    exact Nat.mul_lt_mul_of_pos_right hsmall hpos
  obtain ⟨hle, hge⟩ := magnitude_nearest_below hden (Nat.zero_le 53) hlt
  generalize double.magnitude (double.nearest (rest * double.unitsPerOne)
    (1000000000 * double.unitsPerOne)) = share at *
  generalize double.unitsPerOne = unit at *
  rw [Nat.sub_zero] at hle hge
  -- The denominator is a whole number of units, which cancel.
  constructor
  · apply Nat.le_of_mul_le_mul_right _ hpos
    linarith
  · apply Nat.le_of_mul_le_mul_right _ hpos
    linarith

/-- A span below `2 ^ 23` seconds comes out as it was: seconds of that size have last places finer
than a nanosecond. -/
theorem ofSeconds_toSeconds_of_lt (h : a.nanos < 2 ^ 23 * 10 ^ 9) : ofSeconds a.toSeconds = a := by
  have hpos := Format.unitsPerOne_pos double
  have hwhole : a.nanos / 1000000000 < 2 ^ 23 := by omega
  have hsmall := Nat.mod_lt a.nanos (show 0 < 1000000000 by decide)
  have hsplit : a.nanos * double.unitsPerOne =
      1000000000 * (a.nanos / 1000000000 * double.unitsPerOne)
        + a.nanos % 1000000000 * double.unitsPerOne := by
    rw [← Nat.mul_assoc, ← Nat.add_mul, Nat.div_add_mod]
  have hseconds : a.secondsBits = double.nearest
      (a.nanos / 1000000000 * double.unitsPerOne + double.magnitude a.shareBits)
        double.unitsPerOne := by
    rw [secondsBits, Format.sum, magnitude_nearest_whole (by omega)]
    rfl
  obtain ⟨hshare, hshare'⟩ := a.shareBits_close
  have hunits : a.nanos % 1000000000 * double.unitsPerOne + double.unitsPerOne
      ≤ 1000000000 * double.unitsPerOne := by
    rw [← Nat.succ_mul]
    exact Nat.mul_le_mul_right _ hsmall
  have hroom : a.nanos / 1000000000 * double.unitsPerOne + double.unitsPerOne
      ≤ 2 ^ 23 * double.unitsPerOne := by
    rw [← Nat.succ_mul]
    exact Nat.mul_le_mul_right _ hwhole
  have hlt : a.nanos / 1000000000 * double.unitsPerOne + double.magnitude a.shareBits
      < 2 ^ 23 * double.unitsPerOne := by omega
  -- Half of the last place is `2 ^ -31` seconds, and that is less than half a nanosecond.
  obtain ⟨htotal, htotal'⟩ := magnitude_nearest_below hpos (show 23 ≤ 53 by decide) hlt
  rw [← hseconds, show 54 - 23 = 31 from rfl, ← Nat.mul_assoc, ← Nat.mul_assoc, ← Nat.add_mul]
    at htotal htotal'
  have hclose := Nat.le_of_mul_le_mul_right htotal hpos
  have hclose' := Nat.le_of_mul_le_mul_right htotal' hpos
  apply ofSeconds_toSeconds_of_close <;> rw [hsplit] <;> omega

/-- Whole seconds below `2 ^ 53` come out as they were: they are not rounded at all. -/
theorem ofSeconds_toSeconds_of_whole (h : a.nanos < 2 ^ 53 * 10 ^ 9)
    (hwhole : a.nanos % 10 ^ 9 = 0) : ofSeconds a.toSeconds = a := by
  have hpos := Format.unitsPerOne_pos double
  -- Without a rest the whole seconds are all there is to convert.
  have hshare : a.shareBits = 0 := by
    have hrest : a.nanos % 1000000000 = 0 := hwhole
    rw [shareBits, Format.quotient, hrest, Double.nearest_zero Nat.one_pos, Double.magnitude_zero,
      units_billion]
    exact Double.nearest_zero (Nat.mul_pos (by decide) hpos)
  obtain ⟨p, hp, hvalue⟩ := exists_whole_pattern (show a.nanos / 1000000000 < 2 ^ 53 by omega)
  have hseconds : a.secondsBits = p := by
    show double.sum (double.nearest (a.nanos / 1000000000) 1) a.shareBits = p
    rw [Format.sum, magnitude_nearest_whole (by omega), hshare, Double.magnitude_zero,
      Nat.add_zero, ← hvalue, Double.nearest_magnitude hp]
  have hsplit : a.nanos * double.unitsPerOne =
      a.nanos / 1000000000 * double.unitsPerOne * 1000000000 := by
    have hdivides : a.nanos / 1000000000 * 1000000000 = a.nanos :=
      Nat.div_mul_cancel (Nat.dvd_of_mod_eq_zero hwhole)
    rw [Nat.mul_right_comm, hdivides]
  apply ofSeconds_toSeconds_of_close <;> rw [hseconds, hvalue, hsplit] <;> omega

/-- A span of at most `2 ^ 23` seconds comes out as it was. -/
theorem ofSeconds_toSeconds_of_le (h : a.nanos ≤ 2 ^ 23 * 10 ^ 9) :
    ofSeconds a.toSeconds = a := by
  rcases Nat.lt_or_eq_of_le h with hlt | heq
  · exact ofSeconds_toSeconds_of_lt hlt
  · exact ofSeconds_toSeconds_of_whole (by omega) (by omega)

/-! ### Long spans -/

/-- The whole seconds of a span in floating point are finite. -/
private theorem nearest_seconds_lt (a : Span) :
    double.nearest (a.nanos / 1000000000) 1 < double.infinityBits := by
  have hlongest : double.magnitude 0x43f0000000000000 = UInt64.size * double.unitsPerOne := by
    decide
  have hlt := a.nanos_lt
  have hbits : double.nearest (a.nanos / 1000000000) 1 ≤ 0x43f0000000000000 := by
    apply Format.nearest_le Nat.one_pos (by decide)
    rw [hlongest, Nat.mul_one]
    exact Nat.mul_le_mul_right _ (by omega)
  exact Nat.lt_of_le_of_lt hbits (by decide)

/-- A span in seconds is too small by one part in `2 ^ 51` and one in `2 ^ 51` of a second at
    most. -/
theorem le_units_secondsBits (a : Span) :
    2251799813685248 * (a.nanos * double.unitsPerOne)
      ≤ 2251799813685248 * (1000000000 * double.magnitude a.secondsBits)
        + a.nanos * double.unitsPerOne + 1000000000 * double.unitsPerOne := by
  have hpos := Format.unitsPerOne_pos double
  have hhalf : 4503599627370496 ≤ double.unitsPerOne := by decide
  -- Whole seconds and the rest are rounded one by one, and then their sum.
  have hsplit : 1000000000 * (a.nanos / 1000000000 * double.unitsPerOne)
      + a.nanos % 1000000000 * double.unitsPerOne = a.nanos * double.unitsPerOne := by
    rw [← Nat.mul_assoc, ← Nat.add_mul, Nat.div_add_mod]
  have hwhole := Format.le_magnitude_nearest Nat.one_pos a.nearest_seconds_lt
  obtain ⟨-, hshare⟩ := a.shareBits_close
  have htotal := Format.le_magnitude_nearest hpos a.secondsBits_finite
  change 9007199254740992 * (a.nanos / 1000000000 * double.unitsPerOne) ≤
    9007199254740992 * (double.magnitude (double.nearest (a.nanos / 1000000000) 1) * 1)
      + (a.nanos / 1000000000 * double.unitsPerOne + 4503599627370496 * 1) at hwhole
  change 9007199254740992 * ((double.magnitude (double.nearest (a.nanos / 1000000000) 1)
      + double.magnitude a.shareBits) * double.unitsPerOne) ≤
    9007199254740992 * (double.magnitude a.secondsBits * double.unitsPerOne)
      + ((double.magnitude (double.nearest (a.nanos / 1000000000) 1)
        + double.magnitude a.shareBits) * double.unitsPerOne
        + 4503599627370496 * double.unitsPerOne) at htotal
  rw [← hsplit]
  generalize a.nanos / 1000000000 * double.unitsPerOne = seconds at *
  generalize a.nanos % 1000000000 * double.unitsPerOne = rest at *
  generalize double.magnitude (double.nearest (a.nanos / 1000000000) 1) = whole at *
  generalize double.magnitude a.shareBits = share at *
  generalize double.magnitude a.secondsBits = total at *
  have hcancel : 9007199254740992 * (whole + share)
      ≤ 9007199254740992 * total + (whole + share) + 4503599627370496 := by
    apply Nat.le_of_mul_le_mul_right _ hpos
    linarith
  omega

/-- No span comes out longer by more than one part in `2 ^ 50`. -/
theorem ofSeconds_toSeconds_le (a : Span) :
    (ofSeconds a.toSeconds).nanos ≤ a.nanos + a.nanos / 2 ^ 50 := by
  have hone : 2 ^ 100 ≤ double.unitsPerOne := by decide
  have hpos := Format.unitsPerOne_pos double
  have hseconds := a.units_secondsBits_le
  have hround := two_mul_roundHalfEven_le (double.magnitude a.secondsBits * 1000000000) hpos
  rw [nanos_ofSeconds_toSeconds]
  apply Nat.le_trans (Nat.min_le_left _ _)
  -- Otherwise there would be one nanosecond more than the error allows.
  by_contra hlarge
  change ¬ roundHalfEven _ _ ≤ _ at hlarge
  have hmore := Nat.mul_le_mul_right double.unitsPerOne (Nat.lt_of_not_le hlarge)
  have hparts : a.nanos ≤ 2 ^ 50 * (a.nanos / 2 ^ 50) + (2 ^ 50 - 1) := by omega
  have hbound := Nat.mul_le_mul_right double.unitsPerOne hparts
  generalize a.nanos / 2 ^ 50 = parts at *
  generalize double.unitsPerOne = unit at *
  generalize double.magnitude a.secondsBits = total at *
  rw [Nat.add_mul, Nat.mul_assoc] at hbound
  rw [Nat.succ_mul, Nat.add_mul] at hmore
  omega

/-- No span comes out shorter by more than one part in `2 ^ 50`. -/
theorem le_ofSeconds_toSeconds (a : Span) :
    a.nanos ≤ (ofSeconds a.toSeconds).nanos + a.nanos / 2 ^ 50 := by
  -- Short spans come out as they were. For the others one part in so many is a nanosecond or more.
  by_cases hshort : a.nanos ≤ 2 ^ 23 * 10 ^ 9
  · rw [ofSeconds_toSeconds_of_le hshort]
    exact Nat.le_add_right _ _
  · have hpos := Format.unitsPerOne_pos double
    have hseconds := a.le_units_secondsBits
    have hround := le_two_mul_roundHalfEven (double.magnitude a.secondsBits * 1000000000) hpos
    have hlongest : a.nanos ≤ longest.nanos := Nat.le_sub_one_of_lt a.nanos_lt
    rw [nanos_ofSeconds_toSeconds, nanosOf]
    generalize roundHalfEven (double.magnitude a.secondsBits * 1000000000)
      double.unitsPerOne = n at *
    by_contra hlarge
    have hsmall : n + a.nanos / 2 ^ 50 + 1 ≤ a.nanos := by omega
    have hless := Nat.mul_le_mul_right double.unitsPerOne hsmall
    have hparts : a.nanos ≤ 2 ^ 50 * (a.nanos / 2 ^ 50) + (2 ^ 50 - 1) := by omega
    have hbound := Nat.mul_le_mul_right double.unitsPerOne hparts
    have hmany : 1 ≤ a.nanos / 2 ^ 50 := by omega
    have hfew := Nat.mul_le_mul_right double.unitsPerOne hmany
    generalize a.nanos / 2 ^ 50 = parts at *
    generalize double.unitsPerOne = unit at *
    generalize double.magnitude a.secondsBits = total at *
    rw [Nat.add_mul, Nat.mul_assoc] at hbound
    rw [Nat.succ_mul, Nat.add_mul] at hless
    omega

end Span

end ClosedLoop
