import ClosedLoop.Proofs.Profile.Validation
import ClosedLoop.Proofs.Seconds

namespace ClosedLoop

/-!
# The condition of each profile field

The checks of a profile are stated on floating-point numbers. Here every field has a condition on
the exact values of its numbers, and the checks accept a profile if and only if all fields meet
their conditions. What is accepted needs no lenient conversion of seconds.

* `IsMean`, `IsShare`, `Span.Fits` — finite and not negative; from zero to one; the span nearest to
  a number of seconds;
* `meanFlaw?_eq_none_iff`, `isRatio_iff`, `spanFlaw?_eq_none_iff`, `periodFlaw?_eq_none_iff` — what
  each kind of check accepts;
* `Span.Fits.converted` — where a span fits, the strict and the lenient conversion agree;
* `Profile.Meets`, `Profile.meets_iff` — the condition of a field, and that its checks decide it;
* `Profile.validate_iff_meets` — **validation accepts exactly the profiles whose fields all meet
  their conditions, its error names a field that does not, and the times of what it accepts are
  converted exactly**.
-/

/-! ### Conditions on numbers -/

/-- A number that is finite and not negative; zero may have either sign. -/
def IsMean (x : Float) : Prop :=
  ∃ negative units, Binary.exact x = .finite negative units ∧ (negative = true → units = 0)

/-- A number from zero to one; zero may have either sign. -/
def IsShare (x : Float) : Prop :=
  ∃ negative units, Binary.exact x = .finite negative units ∧ (negative = true → units = 0) ∧
    units ≤ Binary.double.unitsPerOne

/-- The span whose nanoseconds are the whole number nearest to that many seconds, ties to even. -/
def Span.Fits (s : Span) (x : Float) : Prop :=
  ∃ negative units, Binary.exact x = .finite negative units ∧ (negative = true → units = 0) ∧
    IsNearest (units * 1000000000) Binary.double.unitsPerOne s.nanos

/-! ### What the checks accept -/

/-- A mean is not flawed if it is finite and not negative. -/
theorem meanFlaw?_eq_none_iff {x : Float} : meanFlaw? x = none ↔ IsMean x := by
  rw [meanFlaw?]
  cases hfinite : x.isFinite with
  | false =>
    refine iff_of_false (fun h => by simp at h) ?_
    rintro ⟨negative, units, hexact, -⟩
    rw [Double.isFinite_iff_exact.mpr ⟨negative, units, hexact⟩] at hfinite
    cases hfinite
  | true =>
    obtain ⟨negative, units, hexact⟩ := Double.isFinite_iff_exact.mp hfinite
    -- Minus zero is negative in its sign only, and counts as zero.
    have hneg : x < 0 ↔ negative = true ∧ units ≠ 0 := by
      rw [Double.lt_zero_iff, hexact]
      simp [and_comm]
    have hmean : IsMean x ↔ ¬ x < 0 := by
      rw [hneg, not_and, not_not, IsMean, hexact]
      simp
    rw [hmean]
    by_cases h : x < 0 <;> simp [h]

/-- The pattern of one. -/
theorem hasPattern_one : Double.HasPattern 1 0x3ff0000000000000 :=
  ⟨by decide, .inl (by decide)⟩

/-- Patterns are compared with that of one as their numbers are with one. -/
theorem le_one_iff {p : Nat} (hp : p ≤ Binary.double.infinityBits) :
    p ≤ 0x3ff0000000000000 ↔ Binary.double.magnitude p ≤ Binary.double.unitsPerOne := by
  have hone : Binary.double.magnitude 0x3ff0000000000000 = Binary.double.unitsPerOne := by decide
  have hpos := Binary.Format.unitsPerOne_pos Binary.double
  constructor
  · intro h
    rw [← hone]
    exact Binary.Format.magnitude_mono h hasPattern_one.lt_signBit
  · intro h
    rw [← Double.nearest_magnitude hp]
    refine Binary.Format.nearest_le hpos hasPattern_one.lt_signBit ?_
    rw [hone]
    exact Nat.mul_le_mul_right _ h

/-- The check for ratios is exact. -/
theorem isRatio_iff {x : Float} : isRatio x = true ↔ IsShare x := by
  rw [isRatio, Bool.and_eq_true, decide_eq_true_eq, decide_eq_true_eq]
  constructor
  · rintro ⟨hnonneg, hle⟩
    obtain ⟨p, hp⟩ := Double.zero_le_iff.mp hnonneg
    have hone := (hp.le_iff hasPattern_one).mp hle
    obtain ⟨negative, hexact, hzero⟩ := hp.exact_eq (Nat.lt_of_le_of_lt hone (by decide))
    refine ⟨negative, _, hexact, fun h => ?_, (le_one_iff hp.1).mp hone⟩
    rw [hzero h, Double.magnitude_zero]
  · rintro ⟨negative, units, hexact, hsign, hle⟩
    obtain ⟨p, -, hp, rfl⟩ := Double.exists_hasPattern hexact hsign
    have hone := (hp.le_iff hasPattern_one).mpr ((le_one_iff hp.1).mpr hle)
    exact ⟨Double.zero_le_iff.mpr ⟨p, hp⟩, hone⟩

/-- A ratio is not flawed if it is a share. -/
theorem ratioFlaw?_eq_none_iff {x : Float} : ratioFlaw? x = none ↔ IsShare x := by
  rw [ratioFlaw?, ← isRatio_iff]
  split <;> simp_all

/-- A distribution is not flawed if its spread, should it have one, is a share. -/
theorem Distribution.flaw?_eq_none_iff {d : Distribution} :
    d.flaw? = none ↔ ∀ spread, d = .uniform spread → IsShare spread := by
  cases d with
  | uniform spread =>
    have hflaw : (Distribution.uniform spread).flaw? = none ↔ isRatio spread = true := by
      rw [Distribution.flaw?]
      split <;> simp_all
    rw [hflaw, isRatio_iff]
    exact ⟨fun h other heq => by cases heq; exact h, fun h => h spread rfl⟩
  | constant => exact iff_of_true rfl fun spread h => by cases h
  | exponential => exact iff_of_true rfl fun spread h => by cases h

/-- The strict conversion finds the span that fits. -/
theorem Span.ofSeconds?_eq_ok_iff_fits {x : Float} {s : Span} :
    Span.ofSeconds? x = .ok s ↔ s.Fits x := by
  have hone := Binary.Format.unitsPerOne_pos Binary.double
  rw [Span.ofSeconds?_eq_ok_iff]
  constructor
  · rintro ⟨negative, units, hexact, hsign, hnanos⟩
    exact ⟨negative, units, hexact, hsign, hnanos ▸ isNearest_roundHalfEven _ hone⟩
  · rintro ⟨negative, units, hexact, hsign, hnearest⟩
    exact ⟨negative, units, hexact, hsign, hnearest.eq hone⟩

/-- Where a span fits, both conversions find it. -/
theorem Span.Fits.converted {x : Float} {s : Span} (h : s.Fits x) :
    Span.ofSeconds? x = .ok (Span.ofSeconds x) ∧ Span.ofSeconds x = s := by
  have hstrict := Span.ofSeconds?_eq_ok_iff_fits.mpr h
  have hsame := Span.ofSeconds_of_ofSeconds? hstrict
  exact ⟨hsame ▸ hstrict, hsame⟩

/-- Seconds are not flawed if they make a span. -/
theorem spanFlaw?_eq_none_iff {x : Float} : spanFlaw? x = none ↔ ∃ s : Span, s.Fits x := by
  simp only [← Span.ofSeconds?_eq_ok_iff_fits]
  rw [spanFlaw?]
  cases Span.ofSeconds? x <;> simp

/-- A period is not flawed if it makes a span other than zero. -/
theorem periodFlaw?_eq_none_iff {x : Float} :
    periodFlaw? x = none ↔ ∃ s : Span, s.Fits x ∧ 1 ≤ s.nanos := by
  simp only [← Span.ofSeconds?_eq_ok_iff_fits]
  rw [periodFlaw?]
  cases Span.ofSeconds? x with
  | error cause => simp
  | ok period =>
    by_cases hzero : period.nanos = 0 <;> simp [Span.isZero, hzero, Nat.one_le_iff_ne_zero]

/-! ### Conditions of the fields -/

namespace Profile

/-- The condition of each field. -/
def Meets (p : Profile) : Field → Prop
  | .clientId => True
  | .clientName => True
  | .numInstances => 1 ≤ p.instances.toNat
  | .rpcSize => IsMean p.rpcSize
  | .replySize => IsMean p.replySize
  | .rpcTime => IsMean p.rpcTime ∧ ∃ s : Span, s.Fits p.rpcTime
  | .memUpdateSize => IsMean p.memUpdateSize
  | .logAppendSize => IsMean p.logAppendSize
  | .lookupTime => IsMean p.lookupTime ∧ ∃ s : Span, s.Fits p.lookupTime
  | .readSize => IsMean p.readSize
  | .shortCircuitRatio => IsShare p.shortCircuitRatio
  | .thinkTime => IsMean p.thinkTime ∧ ∃ s : Span, s.Fits p.thinkTime
  | .monitorInterval => ∃ s : Span, s.Fits p.monitorInterval ∧ 1 ≤ s.nanos
  | .distribution => ∀ spread, p.distribution = .uniform spread → IsShare spread

/-- The checks of a field decide its condition. -/
theorem meets_iff (p : Profile) (field : Field) :
    p.Meets field ↔ ∀ flaw, (field, flaw) ∈ p.checks → flaw = none := by
  have hinstances : 1 ≤ p.instances.toNat ↔
      (if p.instances = 0 then some Flaw.noInstance else none) = none := by
    have hzero : p.instances = 0 ↔ p.instances.toNat = 0 := UInt64.toNat_inj.symm
    rw [Nat.one_le_iff_ne_zero, ne_eq, ← hzero]
    by_cases h : p.instances = 0 <;> simp [h]
  cases field <;>
    simp [Meets, checks, means, times, meanFlaw?_eq_none_iff, ratioFlaw?_eq_none_iff,
      spanFlaw?_eq_none_iff, periodFlaw?_eq_none_iff, Distribution.flaw?_eq_none_iff, hinstances]

/-- A profile has no flaw if all fields meet their conditions, and a flaw is in one that does
not. -/
theorem flaw?_eq_none_iff (p : Profile) : p.flaw? = none ↔ ∀ field, p.Meets field := by
  simp only [meets_iff]
  rw [flaw?, List.findSome?_eq_none_iff]
  constructor
  · intro h field flaw hmem
    simpa using h _ hmem
  · rintro h ⟨field, flaw⟩ hmem
    simpa using h field flaw hmem

/-- A field with a flaw does not meet its condition. -/
theorem not_meets_of_flaw? {p : Profile} {field : Field} {flaw : Flaw}
    (h : p.flaw? = some (field, flaw)) : ¬ p.Meets field := by
  obtain ⟨⟨field', found⟩, hmem, hfound⟩ := List.exists_of_findSome?_eq_some h
  cases found with
  | none => cases hfound
  | some flaw' =>
    cases hfound
    intro hmeets
    cases (meets_iff p field).mp hmeets _ hmem

/-- Validation accepts exactly the profiles whose fields all meet their conditions. -/
theorem validate_ok_iff_meets (p : Profile) : p.validate = .ok () ↔ ∀ field, p.Meets field := by
  rw [validate_ok_iff, Option.isNone_iff_eq_none, flaw?_eq_none_iff]

/-- The error of a profile is that of its first flaw. -/
theorem validate_error_iff {p : Profile} {e : ConfigError} :
    p.validate = .error e ↔
      ∃ field flaw, p.flaw? = some (field, flaw) ∧ e = .invalidProfile p.id field flaw := by
  rw [validate]
  cases p.flaw? with
  | none => simp
  | some found =>
    obtain ⟨field, flaw⟩ := found
    simp [eq_comm]

/-- **Validation leaves nothing to the lenient conversion.** A profile is accepted if and only if
every field meets its condition; then the strict conversion has the result of the lenient one for
each of its times, so that the think period is the exact rounding of the think time and the monitor
period is not zero. The error of a profile that is refused names a field that does not meet its
condition. -/
theorem validate_iff_meets (p : Profile) :
    (p.validate = .ok () ↔ ∀ field, p.Meets field) ∧
      (p.validate = .ok () →
        (∀ x ∈ [p.rpcTime, p.lookupTime, p.thinkTime, p.monitorInterval],
          Span.ofSeconds? x = .ok (Span.ofSeconds x)) ∧
        p.thinkPeriod.Fits p.thinkTime ∧ 1 ≤ p.monitorPeriod.nanos) ∧
      ∀ e, p.validate = .error e →
        ∃ field flaw, e = .invalidProfile p.id field flaw ∧ ¬ p.Meets field := by
  refine ⟨validate_ok_iff_meets p, fun h => ?_, fun e h => ?_⟩
  -- The conditions on the times ask for spans, and both conversions give these.
  · have hmeets := (validate_ok_iff_meets p).mp h
    obtain ⟨-, rpc, hrpc⟩ := hmeets .rpcTime
    obtain ⟨-, lookup, hlookup⟩ := hmeets .lookupTime
    obtain ⟨-, think, hthink⟩ := hmeets .thinkTime
    obtain ⟨monitor, hmonitor, hpos⟩ := hmeets .monitorInterval
    refine ⟨?_, ?_, ?_⟩
    · simp only [List.forall_mem_cons, List.not_mem_nil, false_implies, implies_true, and_true]
      exact ⟨hrpc.converted.1, hlookup.converted.1, hthink.converted.1, hmonitor.converted.1⟩
    · rw [thinkPeriod, hthink.converted.2]
      exact hthink
    · rw [monitorPeriod, hmonitor.converted.2]
      exact hpos
  · obtain ⟨field, flaw, hflaw, rfl⟩ := validate_error_iff.mp h
    exact ⟨field, flaw, rfl, not_meets_of_flaw? hflaw⟩

end Profile

end ClosedLoop
