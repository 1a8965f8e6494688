import ClosedLoop.Proofs.Stats.Mean

namespace ClosedLoop

/-!
# How far the mean of a window may be off

Six roundings lead from the sum of the latencies to their mean in seconds: of the whole seconds, of
the rest in nanoseconds, of its share of a second, of the sum of both, of the number of calls and of
the quotient. Together they add less than one part in `2 ^ 50`.

* `Span.units_secondsBits_le` — a span in seconds;
* `Window.units_meanBits_le` — the mean in seconds;
* `Window.mean_le` — **the mean is at most the maximum, and one part in `2 ^ 49` of it**.
-/

open Binary

/-- One rounding in double precision. -/
private theorem units_nearest_le (num : Nat) {den : Nat} (hden : 0 < den) :
    9007199254740992 * (double.magnitude (double.nearest num den) * den)
      ≤ 9007199254740993 * (num * double.unitsPerOne) + 4503599627370496 * den :=
  Format.magnitude_nearest_le (f := double) num hden

/-- A span in seconds is too large by one part in `2 ^ 51` at most. -/
theorem Span.units_secondsBits_le (a : Span) :
    2251799813685248 * (1000000000 * double.magnitude a.secondsBits)
      ≤ 2251799813685249 * (a.nanos * double.unitsPerOne) + 4503599627370496 * 1000000000 := by
  have hpos := Format.unitsPerOne_pos double
  have hsplit : 1000000000 * (a.nanos / 1000000000 * double.unitsPerOne)
      + a.nanos % 1000000000 * double.unitsPerOne = a.nanos * double.unitsPerOne := by
    rw [← Nat.mul_assoc, ← Nat.add_mul, Nat.div_add_mod]
  have hwhole := units_nearest_le (a.nanos / 1000000000) Nat.one_pos
  have hnanos := units_nearest_le (a.nanos % 1000000000) Nat.one_pos
  rw [secondsBits, Format.sum, Format.quotient, units_billion]
  generalize double.magnitude (double.nearest (a.nanos / 1000000000) 1) = whole at *
  generalize double.magnitude (double.nearest (a.nanos % 1000000000) 1) = rest at *
  have hshare := units_nearest_le rest (Nat.mul_pos (show 0 < 1000000000 by decide) hpos)
  generalize double.magnitude (double.nearest rest (1000000000 * double.unitsPerOne)) = share at *
  have htotal := units_nearest_le (whole + share) hpos
  generalize double.magnitude (double.nearest (whole + share) double.unitsPerOne) = total at *
  -- The denominators that are whole numbers of units cancel.
  have hshare' : 9007199254740992 * (share * 1000000000)
      ≤ 9007199254740993 * rest + 4503599627370496 * 1000000000 := by
    refine Nat.le_of_mul_le_mul_right ?_ hpos
    linarith
  have htotal' : 9007199254740992 * total
      ≤ 9007199254740993 * (whole + share) + 4503599627370496 := by
    refine Nat.le_of_mul_le_mul_right ?_ hpos
    linarith
  linarith

namespace Window

variable {w : Window} {bound : Nat}

/-- The pattern of `2 ^ 100`. -/
private theorem units_many :
    double.magnitude 0x4630000000000000 = 2 ^ 100 * double.unitsPerOne := by
  decide

/-- The number of calls in floating point is too small by one part in `2 ^ 53` at most, unless it is
    larger than any sum of latencies. -/
private theorem exists_calls (h : w.Within bound) :
    ∃ calls, w.latencySum.nanos ≤ calls * bound ∧
      9007199254740991 * (calls * double.unitsPerOne)
        ≤ 9007199254740992 * double.magnitude (double.nearest w.tally.requests 1)
          + 4503599627370496 := by
  -- Many calls are taken for no more than they have to be: so many are enough for any sum.
  by_cases hmany : w.tally.requests ≤ 2 ^ 100
  · refine ⟨w.tally.requests, h, ?_⟩
    have hbits : double.nearest w.tally.requests 1 ≤ 0x4630000000000000 := by
      refine Format.nearest_le Nat.one_pos (by decide) ?_
      rw [units_many, Nat.mul_one]
      exact Nat.mul_le_mul_right _ hmany
    have hround := Format.le_magnitude_nearest (f := double) Nat.one_pos
      (Nat.lt_of_le_of_lt hbits (by decide))
    change 9007199254740992 * (w.tally.requests * double.unitsPerOne) ≤
      9007199254740992 * (double.magnitude (double.nearest w.tally.requests 1) * 1)
        + (w.tally.requests * double.unitsPerOne + 4503599627370496 * 1) at hround
    omega
  · refine ⟨2 ^ 100, ?_, ?_⟩
    · rcases Nat.eq_zero_or_pos bound with rfl | hbound
      · rw [Within] at h
        omega
      · have hlt := w.latencySum.nanos_lt
        have hsize : UInt64.size * 1000000000 ≤ 2 ^ 100 := by decide
        calc w.latencySum.nanos ≤ 2 ^ 100 * 1 := by omega
          _ ≤ 2 ^ 100 * bound := Nat.mul_le_mul_left _ hbound
    · have hcalls := le_units_nearest (Nat.le_of_not_le hmany) units_many (by decide)
      rw [units_many] at hcalls
      omega

/-- The mean in seconds is too large by one part in `2 ^ 50` of a bound at most. -/
theorem units_meanBits_le (hactive : 1 ≤ w.tally.requests) (h : w.Within bound) :
    1125899906842624 * (1000000000 * double.magnitude w.meanBits)
      ≤ 1125899906842625 * (bound * double.unitsPerOne) + 1125899906842624 * 3000000000 := by
  obtain ⟨calls, hsum, hcalls⟩ := exists_calls h
  have hone : double.unitsPerOne ≤ double.magnitude (double.nearest w.tally.requests 1) := by
    rw [← units_one]
    exact le_units_nearest hactive (units_one.trans (Nat.one_mul _).symm) (by decide)
  have hpos := Format.unitsPerOne_pos double
  have hhalf : 4503599627370496 ≤ double.unitsPerOne := by decide
  have hseconds := w.latencySum.units_secondsBits_le
  rw [meanBits, Format.quotient]
  generalize double.magnitude w.latencySum.secondsBits = total at *
  generalize double.magnitude (double.nearest w.tally.requests 1) = requests at *
  have hmean := units_nearest_le total (Nat.lt_of_lt_of_le hpos hone)
  generalize double.magnitude (double.nearest total requests) = mean at *
  generalize double.unitsPerOne = unit at *
  have hbound : 9007199254740991 * (w.latencySum.nanos * unit)
      ≤ 9007199254740993 * (bound * requests) :=
    calc 9007199254740991 * (w.latencySum.nanos * unit)
        ≤ 9007199254740991 * (calls * bound * unit) :=
          Nat.mul_le_mul_left _ (Nat.mul_le_mul_right _ hsum)
      _ = bound * (9007199254740991 * (calls * unit)) := by ring
      _ ≤ bound * (9007199254740993 * requests) := Nat.mul_le_mul_left _ (by omega)
      _ = _ := by ring
  refine Nat.le_of_mul_le_mul_right ?_ (Nat.lt_of_lt_of_le hpos hone)
  -- Everything is compared in units of units times the number of calls.
  have hbound' := Nat.mul_le_mul_right unit hbound
  have hseconds' := Nat.mul_le_mul_right unit hseconds
  have hnonneg := Nat.zero_le (bound * requests * unit)
  linarith

end Window

/-- What a pattern is as a span. -/
theorem Span.nanos_of_ofBits? {bits : Nat} {s : Span} (h : ofBits? bits = .ok s) :
    s.nanos = roundHalfEven (double.magnitude bits * 1000000000) double.unitsPerOne := by
  rw [ofBits?, Format.decode] at h
  split at h
  · cases h
  · cases h
  -- The pattern is finite and not negative, and its nanoseconds make a span.
  next neg units hdecode =>
    split at hdecode
    · split at hdecode <;> cases hdecode
    · cases hdecode
      split at h
      · cases h
      · rw [ofNanos?] at h
        split at h
        next t ht =>
          split at ht
          · cases h; cases ht; rfl
          · cases ht
        · cases h

/-- **The mean is hardly beyond the maximum**: by one part in `2 ^ 49`, and not at all if that is
    less than a nanosecond. -/
theorem Window.mean_le {w : Window} {bound : Nat} (hactive : 1 ≤ w.tally.requests)
    (h : w.Within bound) {mean : Span} (hmean : Span.ofBitsOrFault w.meanBits = .ok mean) :
    mean.nanos ≤ bound + bound / 2 ^ 49 := by
  have hunit : 2 ^ 100 ≤ double.unitsPerOne := by decide
  have hpos := Format.unitsPerOne_pos double
  have hseconds := units_meanBits_le hactive h
  have hround := two_mul_roundHalfEven_le (double.magnitude w.meanBits * 1000000000) hpos
  have hnanos : mean.nanos
      = roundHalfEven (double.magnitude w.meanBits * 1000000000) double.unitsPerOne := by
    refine Span.nanos_of_ofBits? ?_
    rw [Span.ofBitsOrFault] at hmean
    cases hbits : Span.ofBits? w.meanBits with
    | error cause => rw [hbits] at hmean; cases hmean
    | ok s => rw [hbits] at hmean; cases hmean; rfl
  rw [← hnanos] at hround
  -- Otherwise the mean would be a nanosecond more than the error allows.
  by_contra hlarge
  have hparts : bound ≤ 2 ^ 49 * (bound / 2 ^ 49) + (2 ^ 49 - 1) := by omega
  generalize bound / 2 ^ 49 = parts at *
  have hbound := Nat.mul_le_mul_right double.unitsPerOne hparts
  have hmore := Nat.mul_le_mul_right double.unitsPerOne
    (show bound + parts + 1 ≤ mean.nanos by omega)
  generalize double.unitsPerOne = unit at *
  generalize double.magnitude w.meanBits = bits at *
  rw [Nat.add_mul] at hbound
  rw [Nat.add_mul, Nat.add_mul, Nat.one_mul] at hmore
  rw [Nat.mul_assoc] at hbound
  omega

end ClosedLoop
