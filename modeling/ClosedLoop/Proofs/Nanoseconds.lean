import ClosedLoop.Proofs.Seconds
import Mathlib.Algebra.Order.Ring.Abs
import Mathlib.Tactic.FieldSimp

namespace ClosedLoop

/-!
# Seconds in whole nanoseconds

The lenient conversion is measured here against exact numbers: a double stands for a rational number
of seconds, and the span is the whole number of nanoseconds that is nearest to it.

* `NearestWhole`, `nearestWhole_roundHalfEven`, `NearestWhole.eq_roundHalfEven` — the whole number
  nearest to a rational one, ties to even;
* `Double.value` — the rational number that a double stands for;
* `Span.ofSeconds_le_of_le` — more seconds are no shorter, whatever their signs;
* `Span.ofSeconds_faithful` — **the span of a number of seconds is the nearest one, or the
  longest**.
-/

/-! ### Nearest whole numbers -/

/-- No whole number is nearer to `q`, and one that is equally near leaves this one even. -/
structure NearestWhole (q : ℚ) (n : ℕ) : Prop where
  nearest : ∀ m : ℕ, |q - n| ≤ |q - m|
  even : ∀ m : ℕ, m ≠ n → |q - m| = |q - n| → Even n

/-- Two whole numbers are at least one apart, which `q` lies between or beside. -/
theorem one_le_sum_distances (q : ℚ) {m n : ℕ} (h : m ≠ n) : 1 ≤ |q - m| + |q - n| := by
  have hapart : (1 : ℤ) ≤ |(m : ℤ) - n| := Int.one_le_abs (by omega)
  calc (1 : ℚ) ≤ |(m : ℚ) - n| := by exact_mod_cast hapart
    _ = |(q - n) - (q - m)| := by congr 1; ring
    _ ≤ |q - n| + |q - m| := abs_sub _ _
    _ = |q - m| + |q - n| := add_comm _ _

/-- A quotient is rounded by one half at most, and by one half only to an even number. -/
theorem abs_sub_roundHalfEven (num : ℕ) {den : ℕ} (hden : 0 < den) :
    |(num / den : ℚ) - roundHalfEven num den| ≤ 1 / 2 ∧
      (|(num / den : ℚ) - roundHalfEven num den| = 1 / 2 → Even (roundHalfEven num den)) := by
  have hpos : (0 : ℚ) < den := by exact_mod_cast hden
  obtain ⟨hle, hge, heven⟩ := isNearest_roundHalfEven num hden
  generalize roundHalfEven num den = n at *
  have hle' : 2 * ((n : ℚ) * den) ≤ 2 * num + den := by exact_mod_cast hle
  have hge' : 2 * (num : ℚ) ≤ 2 * (n * den) + den := by exact_mod_cast hge
  have hsplit : (num : ℚ) = num / den * den := by field_simp
  generalize (num : ℚ) / den = q at *
  rw [hsplit] at hle' hge'
  -- The bounds are multiplied by the denominator.
  constructor
  · rw [abs_le]
    constructor <;> nlinarith
  · intro htie
    rw [Nat.even_iff]
    apply heven
    -- At one half of a unit the number rounded to is even, on either side.
    rcases (abs_eq (by norm_num)).mp htie with h | h
    · right
      have hmiddle : (2 * num : ℚ) = 2 * (n * den) + den := by
        rw [hsplit]
        linear_combination 2 * den * h
      exact_mod_cast hmiddle
    · left
      have hmiddle : (2 * (n * den) : ℚ) = 2 * num + den := by
        rw [hsplit]
        linear_combination -2 * den * h
      exact_mod_cast hmiddle

/-- The rounding of a quotient is the whole number nearest to it. -/
theorem nearestWhole_roundHalfEven (num : ℕ) {den : ℕ} (hden : 0 < den) :
    NearestWhole (num / den) (roundHalfEven num den) := by
  obtain ⟨hhalf, heven⟩ := abs_sub_roundHalfEven num hden
  constructor
  · intro m
    by_cases hm : m = roundHalfEven num den
    · rw [hm]
    · have := one_le_sum_distances (num / den) hm
      linarith
  · intro m hm htie
    have := one_le_sum_distances (num / den) hm
    exact heven (by linarith)

/-- There is one nearest whole number only: of two neighbours one is odd. -/
theorem NearestWhole.eq_roundHalfEven {num den n : ℕ} (hden : 0 < den)
    (h : NearestWhole (num / den) n) : n = roundHalfEven num den := by
  have hround := nearestWhole_roundHalfEven num hden
  obtain ⟨hhalf, -⟩ := abs_sub_roundHalfEven num hden
  generalize roundHalfEven num den = r at *
  by_contra hne
  have htie := le_antisymm (h.nearest r) (hround.nearest n)
  have heven : Even n := h.even r (Ne.symm hne) htie.symm
  have heven' : Even r := hround.even n hne htie
  -- Both are within one half, so they are neighbours.
  have hclose : |(n : ℚ) - r| ≤ 1 :=
    calc |(n : ℚ) - r| = |((num : ℚ) / den - r) - (num / den - n)| := by congr 1; ring
      _ ≤ |(num / den : ℚ) - r| + |(num / den : ℚ) - n| := abs_sub _ _
      _ ≤ 1 := by linarith
  have hclose' : |(n : ℤ) - r| ≤ 1 := by exact_mod_cast hclose
  rw [abs_le] at hclose'
  rw [Nat.even_iff] at heven heven'
  omega

/-! ### Exact values -/

namespace Double

/-- The rational number that a double stands for; zero for what is not finite. -/
def value (x : Float) : ℚ :=
  match Binary.exact x with
  | .finite negative units => (if negative then -1 else 1) * (units / Binary.double.unitsPerOne)
  | _ => 0

/-- The value of a finite number that is not negative, in units. -/
theorem value_eq {x : Float} {negative : Bool} {units : Nat}
    (h : Binary.exact x = .finite negative units) (hsign : negative = true → units = 0) :
    value x = units / Binary.double.unitsPerOne := by
  rw [value, h]
  cases negative with
  | false => simp
  | true => simp [hsign rfl]

/-- What is not a number is not finite. -/
theorem isFinite_of_isNaN {x : Float} (h : x.isNaN = true) : x.isFinite = false := by
  change x.toModel.unpack.isNaN = true at h
  show x.toModel.unpack.isFinite = false
  cases view x with
  | notANumber _ hu => rw [hu]; rfl
  | infinite s _ hu | zero s _ hu | finite s k m hpos _ _ hu => rw [hu] at h; cases h

/-- What is infinite is not finite. -/
theorem isFinite_of_isInf {x : Float} (h : x.isInf = true) : x.isFinite = false := by
  change x.toModel.unpack.isInf = true at h
  show x.toModel.unpack.isFinite = false
  cases view x with
  | infinite s _ hu => rw [hu]; rfl
  | notANumber _ hu | zero s _ hu | finite s k m hpos _ _ hu => rw [hu] at h; cases h

end Double

namespace Span

open Binary

/-- The nanoseconds in a finite number of seconds that is not negative, as a quotient. -/
theorem value_mul_billion {x : Float} {negative : Bool} {units : Nat}
    (h : exact x = .finite negative units) (hsign : negative = true → units = 0) :
    Double.value x * 10 ^ 9 = ((units * 1000000000 : ℕ) : ℚ) / (double.unitsPerOne : ℕ) := by
  rw [Double.value_eq h hsign]
  push_cast
  ring

/-- The nanoseconds of a number of seconds are the whole number nearest to its billionfold. -/
theorem nearestWhole_iff {x : Float} {negative : Bool} {units : Nat}
    (h : exact x = .finite negative units) (hsign : negative = true → units = 0) (n : ℕ) :
    NearestWhole (Double.value x * 10 ^ 9) n ↔ n = nanosOf units := by
  have hone := Format.unitsPerOne_pos double
  rw [value_mul_billion h hsign]
  constructor
  · intro hnearest
    exact hnearest.eq_roundHalfEven hone
  · rintro rfl
    exact nearestWhole_roundHalfEven _ hone

/-- Finite numbers of seconds are converted in their order, whatever their signs. -/
theorem ofSeconds_le_of_le {v w : Float} (hw : w.isFinite = true) (h : v ≤ w) :
    ofSeconds v ≤ ofSeconds w := by
  by_cases hpos : 0 < v
  · obtain ⟨p, -, hp⟩ := Double.zero_lt_iff.mp hpos
    have hgrows : Double.Grows v w := ⟨Double.zero_le_iff.mpr ⟨p, hp⟩, h⟩
    exact ofSeconds_le hgrows hw
  · -- What is not positive is no time, and nothing is shorter.
    have hzero : ofSeconds v = zero := ofSeconds_eq_zero fun hlt => absurd hlt hpos
    rw [hzero]
    exact Nat.zero_le _

/-- What is not a number, infinite or not positive is no time. -/
theorem ofSeconds_eq_zero_of_unusable {v : Float}
    (h : v.isNaN = true ∨ v.isInf = true ∨ v ≤ 0) : ofSeconds v = zero := by
  apply ofSeconds_eq_zero
  intro hpos
  rcases h with hnan | hinf | hle
  · exact Double.isFinite_of_isNaN hnan
  · exact Double.isFinite_of_isInf hinf
  · obtain ⟨p, hlt, hp⟩ := Double.zero_lt_iff.mp hpos
    have hzero := (hp.le_iff Double.hasPattern_zero).mp hle
    omega

/-- **The span of a number of seconds is the nearest one, or the longest.** The span of a positive
    finite number of seconds is the whole number of nanoseconds nearest to it, ties to even, if that
    is below `2 ^ 64` seconds, and then it is off by half a nanosecond at most; else it is the
    longest span. What is not a number, infinite or not positive is no time, and finite numbers are
    converted in their order. -/
theorem ofSeconds_faithful (v : Float) :
    (0 < v → v.isFinite = true → ∃ n : ℕ,
      (∀ m, NearestWhole (Double.value v * 10 ^ 9) m ↔ m = n) ∧
        (n < 2 ^ 64 * 10 ^ 9 → (ofSeconds v).nanos = n ∧
          |Double.value v * 10 ^ 9 - (ofSeconds v).nanos| ≤ 1 / 2) ∧
        (2 ^ 64 * 10 ^ 9 ≤ n → ofSeconds v = longest)) ∧
      (v.isNaN = true ∨ v.isInf = true ∨ v ≤ 0 → ofSeconds v = zero) ∧
      ∀ w, v.isFinite = true → w.isFinite = true → v ≤ w → ofSeconds v ≤ ofSeconds w := by
  refine ⟨?_, ofSeconds_eq_zero_of_unusable, fun w _ hw => ofSeconds_le_of_le hw⟩
  intro hpos hfinite
  obtain ⟨p, -, hp⟩ := Double.zero_lt_iff.mp hpos
  -- The number has a pattern, and its units are what is rounded.
  obtain ⟨negative, hexact, hzero⟩ := hp.exact_eq (hp.isFinite_iff.mp hfinite)
  have hsign : negative = true → double.magnitude p = 0 := by
    intro hnegative
    rw [hzero hnegative, Double.magnitude_zero]
  have hnanos := nanos_ofSeconds hexact hsign
  have hnearest := nearestWhole_iff hexact hsign
  have hlongest : longest.nanos = 2 ^ 64 * 10 ^ 9 - 1 := rfl
  refine ⟨nanosOf (double.magnitude p), hnearest, ?_, ?_⟩
  · intro hlt
    have hsame : (ofSeconds v).nanos = nanosOf (double.magnitude p) := by omega
    refine ⟨hsame, ?_⟩
    rw [hsame, value_mul_billion hexact hsign]
    exact (abs_sub_roundHalfEven _ (Format.unitsPerOne_pos double)).1
  · intro hge
    apply Span.ext
    omega

/-- Three parts in `2 ^ 10` of a second end with half a nanosecond, and the neighbour above is
even. -/
theorem ofSeconds_faithful_tie :
    (0 : Float) < 0.0029296875 ∧ (0.0029296875 : Float).isFinite = true ∧
      Double.value 0.0029296875 * 10 ^ 9 = 2929687 + 1 / 2 ∧
      (ofSeconds 0.0029296875).nanos = 2929688 ∧ ofSeconds 0.0029296875 ≤ ofSeconds 0.5 := by
  have hpos : (0 : Float) < 0.0029296875 := by decide +kernel
  have hfinite : (0.0029296875 : Float).isFinite = true := by decide +kernel
  obtain ⟨places, hne, hexact, hone⟩ : ∃ places, places ≠ 0 ∧
      exact 0.0029296875 = .finite false (3 * places) ∧
      double.unitsPerOne = places * 2 ^ 10 :=
    ⟨2 ^ 1064, by decide +kernel, by decide +kernel, by decide +kernel⟩
  have hvalue : Double.value 0.0029296875 * 10 ^ 9 = 2929687 + 1 / 2 := by
    rw [Double.value_eq hexact nofun, hone]
    push_cast
    field_simp
    norm_num
  obtain ⟨hspan, -, hgrows⟩ := ofSeconds_faithful 0.0029296875
  obtain ⟨n, hnearest, hsame, -⟩ := hspan hpos hfinite
  -- The value lies in the middle of two whole numbers, of which the upper one is even.
  have hn : 2929688 = n := by
    rw [← hnearest, hvalue]
    have hround : roundHalfEven 5859375 2 = 2929688 := by decide
    have htie := nearestWhole_roundHalfEven 5859375 (show 0 < 2 by decide)
    rw [hround] at htie
    convert htie using 1
    norm_num
  subst hn
  exact ⟨hpos, hfinite, hvalue, (hsame (by norm_num)).1,
    hgrows 0.5 hfinite (by decide +kernel) (by decide +kernel)⟩

end Span

end ClosedLoop
