import ClosedLoop.Proofs.Double.Arithmetic
import ClosedLoop.Span

namespace ClosedLoop

/-!
# Seconds as spans of time

A finite number of seconds that is not negative is the whole number of nanoseconds nearest to it,
ties to even. The strict conversion refuses what does not fit a span; the lenient one has the same
result where the strict one has any, the longest span for what is too long, and no time at all for
what is not a positive finite number.

* `IsNearest`, `isNearest_roundHalfEven`, `IsNearest.eq` — what rounding to the nearest whole number
  means;
* `Span.nanos_ofSeconds`, `Span.ofSeconds_eq_zero` — the lenient conversion;
* `Span.ofSeconds_le` — **more seconds are no shorter**, as long as their number is finite;
* `Span.ofSeconds?_eq_ok_iff`, `Span.ofSeconds_of_ofSeconds?` — the strict conversion, and that both
  agree.
-/

/-! ### Nearest whole numbers -/

/-- The whole number nearest to `num / den`; of two that are equally near, the even one. -/
structure IsNearest (num den n : Nat) : Prop where
  le : 2 * (n * den) ≤ 2 * num + den
  ge : 2 * num ≤ 2 * (n * den) + den
  even : 2 * (n * den) = 2 * num + den ∨ 2 * num = 2 * (n * den) + den → n % 2 = 0

/-- Rounding half to even gives a nearest whole number. -/
theorem isNearest_roundHalfEven (num : Nat) {den : Nat} (hden : 0 < den) :
    IsNearest num den (roundHalfEven num den) := by
  refine ⟨two_mul_roundHalfEven_le num hden, le_two_mul_roundHalfEven num hden, ?_⟩
  by_contra hodd
  obtain ⟨htie, hodd⟩ := Classical.not_imp.mp hodd
  generalize hn : roundHalfEven num den = n at htie hodd
  have hmiddle : (2 * n + 1) * den = 2 * (n * den) + den := by ring
  rcases htie with hbelow | habove
  · -- the middle before an odd number is rounded to the number before
    have hpos : 0 < n := by omega
    have hprevious : (2 * (n - 1) + 1) * den + den = 2 * (n * den) := by
      obtain ⟨k, rfl⟩ : ∃ k, n = k + 1 := ⟨n - 1, by omega⟩
      rw [Nat.add_sub_cancel]
      ring
    have hle := @roundHalfEven_le_of_le_middle num den (n - 1) (by omega) (by omega) hden
    omega
  · -- the middle after an odd number is rounded to the number after
    have hlt := @lt_roundHalfEven_of_middle_le num den n (by omega) (by omega) hden
    omega

/-- There is one nearest whole number only. -/
theorem IsNearest.eq {num den n : Nat} (hden : 0 < den) (h : IsNearest num den n) :
    n = roundHalfEven num den := by
  obtain ⟨hle, hge, heven⟩ := h
  refine Nat.le_antisymm ?_ ?_
  -- Two different ones would both be half a unit away, so that both would be even.
  · by_contra hlt
    have hmul : (roundHalfEven num den + 1) * den ≤ n * den := Nat.mul_le_mul_right den (by omega)
    obtain ⟨hle', hge', heven'⟩ := isNearest_roundHalfEven num hden
    rw [Nat.add_mul, Nat.one_mul] at hmul
    have hn := heven (.inl (by omega))
    have hr := heven' (.inr (by omega))
    have hmore : (roundHalfEven num den + 2) * den ≤ n * den := Nat.mul_le_mul_right den (by omega)
    rw [Nat.add_mul] at hmore
    omega
  · by_contra hlt
    have hmul : (n + 1) * den ≤ roundHalfEven num den * den := Nat.mul_le_mul_right den (by omega)
    obtain ⟨hle', hge', heven'⟩ := isNearest_roundHalfEven num hden
    rw [Nat.add_mul, Nat.one_mul] at hmul
    have hn := heven (.inr (by omega))
    have hr := heven' (.inl (by omega))
    have hmore : (n + 2) * den ≤ roundHalfEven num den * den := Nat.mul_le_mul_right den (by omega)
    rw [Nat.add_mul] at hmore
    omega

namespace Span

open Binary

/-! ### Lenient conversion -/

/-- A number of seconds in nanoseconds. -/
def nanosOf (units : Nat) : Nat := roundHalfEven (units * 1000000000) double.unitsPerOne

/-- Longer times have as many nanoseconds or more. -/
theorem nanosOf_mono {a b : Nat} (h : a ≤ b) : nanosOf a ≤ nanosOf b := by
  have hone := Format.unitsPerOne_pos double
  exact roundHalfEven_mono hone hone (Nat.mul_le_mul_right _ (Nat.mul_le_mul_right _ h))

/-- No time has no nanoseconds. -/
theorem nanosOf_zero : nanosOf 0 = 0 := by
  rw [nanosOf, Nat.zero_mul, roundHalfEven_zero_left]

/-- Seconds that are finite and not negative are their nanoseconds, or the longest span. -/
theorem nanos_ofSeconds {x : Float} {negative : Bool} {units : Nat}
    (h : exact x = .finite negative units) (hsign : negative = true → units = 0) :
    (ofSeconds x).nanos = min (nanosOf units) longest.nanos := by
  rw [ofSeconds, h]
  cases negative with
  | false => rfl
  | true =>
    rw [hsign rfl, nanosOf_zero, Nat.zero_min]
    rfl

/-- What is not a positive finite number is no time. -/
theorem ofSeconds_eq_zero {x : Float} (h : 0 < x → x.isFinite = false) : ofSeconds x = zero := by
  cases hexact : exact x with
  | notANumber => rw [ofSeconds, hexact]
  | infinite negative => rw [ofSeconds, hexact]
  | finite negative units =>
    cases negative with
    | true => rw [ofSeconds, hexact]
    | false =>
      obtain ⟨p, hlt, hp, hunits⟩ :=
        Double.exists_hasPattern hexact fun hsign => absurd hsign Bool.false_ne_true
      -- The only pattern that is left is that of zero.
      have hzero : p = 0 := by
        by_contra hpos
        have hinfinite := h (Double.zero_lt_iff.mpr ⟨p, Nat.pos_of_ne_zero hpos, hp⟩)
        rw [hp.isFinite_iff.mpr hlt] at hinfinite
        cases hinfinite
      rw [hzero, Double.magnitude_zero] at hunits
      refine Span.ext ?_
      rw [nanos_ofSeconds hexact fun _ => hunits.symm, ← hunits, nanosOf_zero, Nat.zero_min]
      rfl

/-- **More seconds are no shorter**, as long as their number is finite. -/
theorem ofSeconds_le {x y : Float} (h : Double.Grows x y) (hfinite : y.isFinite = true) :
    ofSeconds x ≤ ofSeconds y := by
  obtain ⟨p, q, hp, hq, hpq⟩ := h.exists_patterns
  have hqf := hq.isFinite_iff.mp hfinite
  obtain ⟨negative, hexact, hzero⟩ := hp.exact_eq (Nat.lt_of_le_of_lt hpq hqf)
  obtain ⟨negative', hexact', hzero'⟩ := hq.exact_eq hqf
  rw [le_def, nanos_ofSeconds hexact fun h => by rw [hzero h, Double.magnitude_zero],
    nanos_ofSeconds hexact' fun h => by rw [hzero' h, Double.magnitude_zero]]
  exact min_le_min_right _ (nanosOf_mono (Format.magnitude_mono hpq hq.lt_signBit))

/-! ### Strict conversion -/

/-- Nanoseconds make the span that has them. -/
theorem ofNanos?_eq_some_iff {n : Nat} {s : Span} : ofNanos? n = some s ↔ s.nanos = n := by
  rw [ofNanos?]
  split
  next h =>
    exact ⟨fun hs => by rw [← Option.some.inj hs], fun hs => congrArg some (Span.ext hs.symm)⟩
  next h =>
    refine ⟨fun hs => by simp at hs, fun hs => absurd s.nanos_lt ?_⟩
    rw [hs]
    exact h

/-- The strict conversion has a result for what is finite and not negative and is rounded to the
nanoseconds of a span. -/
theorem ofSeconds?_eq_ok_iff {x : Float} {s : Span} :
    ofSeconds? x = .ok s ↔ ∃ negative units, exact x = .finite negative units ∧
      (negative = true → units = 0) ∧ s.nanos = nanosOf units := by
  constructor
  -- Each check that may fail is one of the conditions.
  · intro h
    rw [ofSeconds?, ofBits?] at h
    split at h
    · cases h
    · cases h
    next negative units hdecode =>
      refine ⟨negative, units, hdecode, ?_⟩
      split at h
      · cases h
      next hsign =>
        refine ⟨by simpa using hsign, ?_⟩
        split at h
        next t ht =>
          cases h
          exact ofNanos?_eq_some_iff.mp ht
        · cases h
  · rintro ⟨negative, units, hexact, hsign, hnanos⟩
    have hnot : ¬ (negative && units != 0) = true := by simpa using hsign
    have hdecode : double.decode x.toBits.toNat = .finite negative units := hexact
    have hspan := ofNanos?_eq_some_iff.mpr hnanos
    rw [nanosOf] at hspan
    simp only [ofSeconds?, ofBits?, hdecode, if_neg hnot, hspan]

/-- Where the strict conversion has a result, the lenient one has the same. -/
theorem ofSeconds_of_ofSeconds? {x : Float} {s : Span} (h : ofSeconds? x = .ok s) :
    ofSeconds x = s := by
  obtain ⟨negative, units, hexact, hsign, hnanos⟩ := ofSeconds?_eq_ok_iff.mp h
  refine Span.ext ?_
  have hlt := s.nanos_lt
  rw [nanos_ofSeconds hexact hsign, ← hnanos]
  show min s.nanos (UInt64.size * 1000000000 - 1) = s.nanos
  omega

end Span

end ClosedLoop
