import ClosedLoop.Clock
import ClosedLoop.Proofs.Binary
import ClosedLoop.Proofs.Stats.Journal

namespace ClosedLoop

/-!
# The mean latency of a window

The mean is computed in floating-point seconds. It may come out larger than the longest span, and
then the window cannot be cut. That happens to a window of one call only, and not as long as no call
took longer than the range of the clock.

* `Span.secondsBits_le`, `Span.ofBits?_ok`, `Span.ofBits?_tooLarge` — bounds on spans in seconds and
  back;
* `Span.secondsBits_le_of_lt_middle`, `Span.le_secondsBits_of_middle_le` — which spans are rounded
  up to `2 ^ 64` seconds;
* `Window.Closable`, `Window.close_ok_iff` — **which windows can be cut**;
* `Window.Within`, `Window.close_of_within` — the latencies of a window add up to at most so much
  for each call; within the range of the clock it can be cut.
-/

open Binary

/-! ### Patterns of some powers of two -/

/-- One in units of the smallest double. -/
theorem units_one : double.magnitude 0x3ff0000000000000 = double.unitsPerOne := by
  decide

/-- The pattern of one. -/
private theorem nearest_one : double.nearest 1 1 = 0x3ff0000000000000 := by
  decide +kernel

/-- The pattern of a billion. -/
private theorem nearest_billion : double.nearest 1000000000 1 = 0x41cdcd6500000000 := by
  decide +kernel

/-- A billion in units of the smallest double. -/
theorem units_billion :
    double.magnitude (double.nearest 1000000000 1) = 1000000000 * double.unitsPerOne := by
  rw [nearest_billion]
  decide

/-- Two in units of the smallest double. -/
private theorem units_two : double.magnitude 0x4000000000000000 = 2 * double.unitsPerOne := by
  decide

/-- The pattern after that of `2 ^ 63`, which is `2 ^ 63 + 2 ^ 11`. -/
private theorem units_beyond_range :
    double.magnitude 0x43e0000000000001 = 9223372036854777856 * double.unitsPerOne := by
  decide

/-- The pattern before that of `2 ^ 64`, which is `2 ^ 64 - 2 ^ 11`. -/
private theorem units_below_longest :
    double.magnitude 0x43efffffffffffff = 18446744073709549568 * double.unitsPerOne := by
  decide

/-- The pattern of `2 ^ 64`. -/
private theorem units_longest :
    double.magnitude 0x43f0000000000000 = 18446744073709551616 * double.unitsPerOne := by
  decide

/-- The next pattern, that of `2 ^ 64 + 2 ^ 12`. -/
private theorem units_beyond_longest :
    double.magnitude 0x43f0000000000001 = 18446744073709555712 * double.unitsPerOne := by
  decide

/-- A number of calls in floating point is at least any smaller number that has a pattern. -/
theorem le_units_nearest {n calls bits : Nat} (hle : n ≤ calls)
    (hbits : double.magnitude bits = n * double.unitsPerOne)
    (hfinite : bits ≤ double.infinityBits) :
    double.magnitude bits ≤ double.magnitude (double.nearest calls 1) := by
  have hsign : bits < double.signBit :=
    Nat.lt_of_le_of_lt hfinite double.infinityBits_lt_signBit
  refine Format.magnitude_mono (Format.le_nearest Nat.one_pos hsign hfinite ?_)
    (Format.nearest_lt_signBit calls 1)
  rw [hbits, Nat.mul_one]
  exact Nat.mul_le_mul_right _ hle

namespace Span

/-- What is left beside the whole seconds of a span is not rounded beyond one second. -/
private theorem units_rest_le (a : Span) :
    double.magnitude (double.quotient (double.nearest (a.nanos % 1000000000) 1)
      (double.nearest 1000000000 1)) ≤ double.unitsPerOne := by
  -- The rest has fewer than a billion nanoseconds, and rounding does not take it past a billion.
  have hpos := Format.unitsPerOne_pos double
  have hnanos : double.magnitude (double.nearest (a.nanos % 1000000000) 1)
      ≤ 1000000000 * double.unitsPerOne := by
    have hsmall := Nat.mod_lt a.nanos (show 0 < 1000000000 by decide)
    have hbound : double.nearest 1000000000 1 < double.signBit := Format.nearest_lt_signBit _ _
    rw [← units_billion]
    refine Format.magnitude_mono (Format.nearest_le Nat.one_pos hbound ?_) hbound
    rw [units_billion, Nat.mul_one]
    exact Nat.mul_le_mul_right _ hsmall.le
  have hbound : 0x3ff0000000000000 < double.signBit := by decide
  rw [← units_one]
  refine Format.magnitude_mono (Format.nearest_le ?_ hbound ?_) hbound
  · rw [units_billion]
    exact Nat.mul_pos (by decide) hpos
  · rw [units_billion, units_one]
    calc _ ≤ 1000000000 * double.unitsPerOne * double.unitsPerOne := Nat.mul_le_mul_right _ hnanos
      _ = double.unitsPerOne * (1000000000 * double.unitsPerOne) := Nat.mul_comm _ _

/-- A span in seconds is below any pattern that leaves room for one second after a bound on its
    whole seconds. -/
theorem secondsBits_le (a : Span) {whole total : Nat} (hwhole : whole < double.signBit)
    (htotal : total < double.signBit)
    (hle : a.nanos / 1000000000 * double.unitsPerOne ≤ double.magnitude whole)
    (hroom : double.magnitude whole + double.unitsPerOne ≤ double.magnitude total) :
    a.secondsBits ≤ total := by
  -- Whole seconds and the rest are rounded on their own, and then their sum.
  have hseconds : double.magnitude (double.nearest (a.nanos / 1000000000) 1)
      ≤ double.magnitude whole := by
    refine Format.magnitude_mono (Format.nearest_le Nat.one_pos hwhole ?_) hwhole
    rw [Nat.mul_one]
    exact hle
  refine Format.nearest_le (Format.unitsPerOne_pos double) htotal (Nat.mul_le_mul_right _ ?_)
  exact Nat.le_trans (Nat.add_le_add hseconds a.units_rest_le) hroom

/-- Below the middle between `2 ^ 64` seconds and the pattern before, no span is rounded up to
    `2 ^ 64` seconds. -/
theorem secondsBits_le_of_lt_middle {a : Span}
    (h : a.nanos < (UInt64.size - 1024) * 1000000000) : a.secondsBits ≤ 0x43efffffffffffff := by
  have hpos := Format.unitsPerOne_pos double
  have hbound : 0x43efffffffffffff + 1 < double.signBit := by decide
  have hmiddle : double.magnitude 0x43efffffffffffff + double.magnitude (0x43efffffffffffff + 1)
      = 36893488147419101184 * double.unitsPerOne := by
    rw [units_below_longest, units_longest]
    omega
  have hwhole : a.nanos / 1000000000 < 18446744073709550592 :=
    Nat.div_lt_of_lt_mul (by rw [Nat.mul_comm]; exact h)
  have hseconds : double.magnitude (double.nearest (a.nanos / 1000000000) 1)
      ≤ 18446744073709549568 * double.unitsPerOne := by
    rw [← units_below_longest]
    refine Format.magnitude_mono (Format.nearest_le_of_lt_middle Nat.one_pos hbound ?_)
      (Nat.lt_of_succ_lt hbound)
    rw [hmiddle, Nat.mul_one, ← Nat.mul_assoc]
    exact Nat.mul_lt_mul_of_pos_right (by omega) hpos
  -- One second more stays below the middle, too.
  refine Format.nearest_le_of_lt_middle hpos hbound ?_
  rw [hmiddle, ← Nat.mul_assoc]
  refine Nat.mul_lt_mul_of_pos_right ?_ hpos
  have hrest := a.units_rest_le
  omega

/-- From the middle on every span is rounded up to `2 ^ 64` seconds. -/
theorem le_secondsBits_of_middle_le {a : Span}
    (h : (UInt64.size - 1024) * 1000000000 ≤ a.nanos) : 0x43f0000000000000 ≤ a.secondsBits := by
  have hbound : 0x43f0000000000000 < double.signBit := by decide
  -- The whole seconds alone are rounded that far.
  have hwhole : 18446744073709550592 ≤ a.nanos / 1000000000 :=
    (Nat.le_div_iff_mul_le (by decide)).mpr h
  have hseconds : double.magnitude 0x43f0000000000000
      ≤ double.magnitude (double.nearest (a.nanos / 1000000000) 1) := by
    refine Format.magnitude_mono ?_ (Format.nearest_lt_signBit _ _)
    show 0x43efffffffffffff < _
    refine Format.lt_nearest_of_middle_le Nat.one_pos (by decide) (by decide) (by decide) ?_
    rw [units_below_longest, units_longest, Nat.mul_one]
    have hmul := Nat.mul_le_mul_right double.unitsPerOne hwhole
    omega
  refine Format.le_nearest (Format.unitsPerOne_pos double) hbound (by decide) ?_
  exact Nat.mul_le_mul_right _ (Nat.le_trans hseconds (Nat.le_add_right _ _))

/-- No span is rounded beyond the pattern after that of `2 ^ 64` seconds. -/
theorem secondsBits_le_beyond_longest (a : Span) : a.secondsBits ≤ 0x43f0000000000001 := by
  have hlt := a.nanos_lt
  have hsize : UInt64.size = 18446744073709551616 := rfl
  refine a.secondsBits_le (show 0x43f0000000000000 < _ by decide) (by decide) ?_ ?_
  · rw [units_longest]
    exact Nat.mul_le_mul_right _ (by omega)
  · rw [units_longest, units_beyond_longest]
    omega

/-- A finite number of seconds that is at most the longest span is a span. -/
theorem ofBits?_ok {bits : Nat} (hfinite : bits < double.infinityBits)
    (hle : double.magnitude bits * 1000000000
      ≤ (UInt64.size * 1000000000 - 1) * double.unitsPerOne) :
    ∃ s, ofBits? bits = .ok s := by
  -- A finite pattern without a sign is neither refused as infinite nor as negative.
  have hexponent : double.exponent bits ≠ (1 <<< double.exponentBits) - 1 := by
    have hdiv : bits / 2 ^ 52 < 2047 := by
      have hinf : double.infinityBits = 2047 * 2 ^ 52 := by decide
      rw [hinf] at hfinite
      exact Nat.div_lt_of_lt_mul (by omega)
    show (bits >>> 52) % (1 <<< 11) ≠ (1 <<< 11) - 1
    rw [Nat.shiftRight_eq_div_pow, Nat.one_shiftLeft]
    omega
  have hsign : double.negative bits = false := by
    have hlt : bits < double.signBit := Nat.lt_trans hfinite (by decide)
    rw [Format.negative, Nat.div_eq_of_lt hlt]
    rfl
  have hround := roundHalfEven_le (Format.unitsPerOne_pos double) hle
  have hlt : roundHalfEven (double.magnitude bits * 1000000000) double.unitsPerOne
      < UInt64.size * 1000000000 := by
    have hpos : 0 < UInt64.size * 1000000000 := by decide
    omega
  refine ⟨⟨_, hlt⟩, ?_⟩
  rw [ofBits?, Format.decode, if_neg hexponent, hsign]
  simp only [Bool.false_and, Bool.false_eq_true, if_false]
  rw [ofNanos?, dif_pos hlt]

/-- From `2 ^ 64` seconds on there are no spans. -/
theorem ofBits?_tooLarge {bits : Nat} (hbits : bits ≤ double.infinityBits)
    (hle : UInt64.size * double.unitsPerOne ≤ double.magnitude bits) :
    ofBits? bits = .error .tooLarge := by
  have hsign : double.negative bits = false := by
    have hlt : bits < double.signBit := Nat.lt_of_le_of_lt hbits double.infinityBits_lt_signBit
    rw [Format.negative, Nat.div_eq_of_lt hlt]
    rfl
  have hround : UInt64.size * 1000000000
      ≤ roundHalfEven (double.magnitude bits * 1000000000) double.unitsPerOne := by
    refine le_roundHalfEven (Format.unitsPerOne_pos double) ?_
    calc UInt64.size * 1000000000 * double.unitsPerOne
        = UInt64.size * double.unitsPerOne * 1000000000 := by ring
      _ ≤ double.magnitude bits * 1000000000 := Nat.mul_le_mul_right _ hle
  rw [ofBits?, Format.decode]
  -- Infinity and numbers that are too large fail alike.
  by_cases hexponent : double.exponent bits = (1 <<< double.exponentBits) - 1
  · rw [if_pos hexponent, hsign]
    by_cases hfraction : double.fraction bits = 0
    · rw [if_pos hfraction]
      rfl
    · rw [if_neg hfraction]
  · rw [if_neg hexponent, hsign]
    simp only [Bool.false_and, Bool.false_eq_true, if_false]
    rw [ofNanos?, dif_neg (Nat.not_lt.mpr hround)]

end Span

/-! ### Cutting a window -/

/-- The latencies of a window add up to at most `bound` for each call. -/
def Window.Within (bound : Nat) (w : Window) : Prop :=
  w.latencySum.nanos ≤ w.tally.requests * bound

/-- A window can be cut unless the latency of its only call is rounded up to `2 ^ 64` seconds. -/
def Window.Closable (w : Window) : Prop :=
  w.tally.requests = 1 → w.latencySum.nanos < (UInt64.size - 1024) * 1000000000

/-- The mean of two calls or more is hardly beyond half of the longest span. -/
private theorem meanBits_le_of_two {w : Window} (htwo : 2 ≤ w.tally.requests) :
    w.meanBits ≤ 0x43e0000000000001 := by
  have hpos := Format.unitsPerOne_pos double
  -- The sum is at most the longest span, and it is divided by two or more.
  have hbound : 0x43e0000000000001 < double.signBit := by decide
  have htotal : 0x43f0000000000001 < double.signBit := by decide
  have hsum := w.latencySum.secondsBits_le_beyond_longest
  have hrequests : 2 * double.unitsPerOne
      ≤ double.magnitude (double.nearest w.tally.requests 1) := by
    rw [← units_two]
    exact le_units_nearest htwo units_two (by decide)
  have htwice : double.magnitude 0x43f0000000000001
      = 2 * double.magnitude 0x43e0000000000001 := by
    rw [units_beyond_longest, units_beyond_range]
    omega
  refine Format.nearest_le ?_ hbound ?_
  · exact Nat.lt_of_lt_of_le (Nat.mul_pos (by decide) hpos) hrequests
  · calc double.magnitude w.latencySum.secondsBits * double.unitsPerOne
        ≤ 2 * double.magnitude 0x43e0000000000001 * double.unitsPerOne :=
          Nat.mul_le_mul_right _ (htwice ▸ Format.magnitude_mono hsum htotal)
      _ = double.magnitude 0x43e0000000000001 * (2 * double.unitsPerOne) := by ring
      _ ≤ _ := Nat.mul_le_mul_left _ hrequests

/-- The mean of one call is its latency in seconds, rounded once more. -/
private theorem meanBits_of_one {w : Window} (hone : w.tally.requests = 1) :
    w.meanBits = double.nearest (double.magnitude w.latencySum.secondsBits)
      double.unitsPerOne := by
  rw [Window.meanBits, Format.quotient, hone, nearest_one, units_one]

/-- The mean of one call below the middle is its seconds, which are less than the longest. -/
private theorem meanBits_le_of_one {w : Window} (hone : w.tally.requests = 1)
    (h : w.latencySum.nanos < (UInt64.size - 1024) * 1000000000) :
    w.meanBits ≤ 0x43efffffffffffff := by
  have hbound : 0x43efffffffffffff < double.signBit := by decide
  rw [meanBits_of_one hone]
  refine Format.nearest_le (Format.unitsPerOne_pos double) hbound (Nat.mul_le_mul_right _ ?_)
  exact Format.magnitude_mono (Span.secondsBits_le_of_lt_middle h) hbound

/-- From the middle on the mean of one call has as many seconds as no span has. -/
private theorem le_meanBits_of_one {w : Window} (hone : w.tally.requests = 1)
    (h : (UInt64.size - 1024) * 1000000000 ≤ w.latencySum.nanos) :
    0x43f0000000000000 ≤ w.meanBits := by
  have hbound : 0x43f0000000000000 < double.signBit := by decide
  rw [meanBits_of_one hone]
  refine Format.le_nearest (Format.unitsPerOne_pos double) hbound (by decide)
    (Nat.mul_le_mul_right _ ?_)
  exact Format.magnitude_mono (Span.le_secondsBits_of_middle_le h)
    (Format.nearest_lt_signBit _ _)

/-- No mean of a window that can be cut is rounded up to `2 ^ 64` seconds. -/
private theorem meanBits_le {w : Window} (hactive : 1 ≤ w.tally.requests) (h : w.Closable) :
    w.meanBits ≤ 0x43efffffffffffff := by
  by_cases hone : w.tally.requests = 1
  · exact meanBits_le_of_one hone (h hone)
  · exact Nat.le_trans (meanBits_le_of_two (by omega)) (by decide)

/-- **Which windows can be cut**, of those that have seen activity. -/
theorem Window.close_ok_iff {w : Window} (hactive : 1 ≤ w.tally.requests) (client : ClientId)
    (name : String) (now : Span) : (∃ s, w.close client name now = .ok s) ↔ w.Closable := by
  rw [Window.close, Span.ofBitsOrFault]
  constructor
  -- If it can be cut, one call alone was not too long, as its mean would not be a span.
  · rintro ⟨s, hs⟩ hone
    by_contra hlong
    have hmean := le_meanBits_of_one hone (by omega)
    have hinf : w.meanBits ≤ double.infinityBits := Nat.min_le_left _ _
    rw [Span.ofBits?_tooLarge hinf] at hs
    · cases hs
    · have hmono := Format.magnitude_mono hmean
        (Nat.lt_of_le_of_lt hinf double.infinityBits_lt_signBit)
      rw [units_longest] at hmono
      exact hmono
  -- If it was not too long, the mean is a double below the longest span.
  · intro h
    have hmean := meanBits_le hactive h
    have hmono := Format.magnitude_mono hmean (by decide : _ < double.signBit)
    obtain ⟨mean, hok⟩ := Span.ofBits?_ok (Nat.lt_of_le_of_lt hmean (by decide)) (by
      calc double.magnitude w.meanBits * 1000000000
          ≤ 18446744073709549568 * double.unitsPerOne * 1000000000 :=
            Nat.mul_le_mul_right _ (units_below_longest ▸ hmono)
        _ = 18446744073709549568 * 1000000000 * double.unitsPerOne := by ring
        _ ≤ (UInt64.size * 1000000000 - 1) * double.unitsPerOne :=
            Nat.mul_le_mul_right _ (by decide))
    exact ⟨w.shownWith client name now mean, by rw [hok]; rfl⟩

/-- A window within the range of the clock can be cut. -/
theorem Window.Within.closable {w : Window} (h : w.Within Clock.range) : w.Closable := by
  intro hone
  have hrange : Clock.range < (UInt64.size - 1024) * 1000000000 := by decide
  rw [Window.Within, hone, Nat.one_mul] at h
  exact Nat.lt_of_le_of_lt h hrange

/-- Windows within range can be cut. -/
theorem Window.close_of_within {w : Window} (hactive : 1 ≤ w.tally.requests)
    (h : w.Within Clock.range) (client : ClientId) (name : String) (now : Span) :
    ∃ s, w.close client name now = .ok s :=
  (Window.close_ok_iff hactive client name now).mpr h.closable

end ClosedLoop
