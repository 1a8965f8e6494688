import ClosedLoop.Proofs.Double.Unpacked

namespace ClosedLoop

/-!
# The order of doubles

Doubles that are not negative have the order of their patterns, which is the order of the numbers
that they stand for. Everything else is not a number or less than zero.

* `Double.HasPattern`, `Double.HasPattern.cases` — the pattern of a double that is not negative;
* `Double.HasPattern.le_iff`, `Double.HasPattern.lt_iff` — **they are compared as their patterns**;
* `Double.zero_le_iff`, `Double.zero_lt_iff`, `Double.lt_zero_iff`, `Double.isFinite_iff_exact` —
  comparisons with zero, and finite numbers;
* `Double.Grows` — a number from zero on and one that is no smaller.
-/

open Float.Model Float.Model.UnpackedFloat

namespace Double

/-! ### Patterns -/

/-- The double is not negative, and `p` is its pattern but for the sign of a zero. -/
def HasPattern (x : Float) (p : Nat) : Prop :=
  p ≤ Binary.double.infinityBits ∧
    (x.toBits.toNat = p ∨ p = 0 ∧ x.toBits.toNat = Binary.double.signBit)

namespace HasPattern

variable {x y : Float} {p q : Nat}

/-- The pattern of a double that is not negative has no sign. -/
theorem lt_signBit (h : HasPattern x p) : p < Binary.double.signBit :=
  Nat.lt_of_le_of_lt h.1 Binary.double.infinityBits_lt_signBit

/-- What a double that is not negative is: a zero of either sign, a finite number with its mantissa,
or infinity. -/
theorem cases (h : HasPattern x p) :
    (p = 0 ∧ ∃ s, Binary.exact x = .finite (isNegative s) 0 ∧ x.toModel.unpack = .zero s) ∨
      (∃ k m hpos, Binary.double.Canonical k m ∧ p = k * 2 ^ 52 + m ∧
        p < Binary.double.infinityBits ∧ Binary.exact x = .finite false (m * 2 ^ k) ∧
        x.toModel.unpack = .finite .positive m (k - 1074) hpos) ∨
      p = Binary.double.infinityBits ∧ Binary.exact x = .infinite false ∧
        x.toModel.unpack = .infinity .positive := by
  obtain ⟨hle, hbits⟩ := h
  have hinf := infinityBits_eq
  have hsign := signBit_eq
  have hpositive : weight .positive = 0 := rfl
  have hnegative : weight .negative = Binary.double.signBit := rfl
  -- A pattern with the sign set is that of a zero or not in question.
  cases view x with
  | notANumber _ _ hnan =>
    rw [hsign] at hnan hbits
    exfalso
    omega
  | infinite s hexact hunpack hx =>
    cases s
    · exfalso
      omega
    · exact .inr (.inr ⟨by omega, hexact, hunpack⟩)
  | zero s hexact hunpack hx =>
    refine .inl ⟨?_, s, hexact, hunpack⟩
    cases s <;> omega
  | finite s k m hpos hc hexact hunpack hx hlt =>
    cases s
    · exfalso
      omega
    · exact .inr (.inl ⟨k, m, hpos, hc, by omega, by omega, hexact, hunpack⟩)

/-- The exact value of a double that is finite and not negative. -/
theorem exact_eq (h : HasPattern x p) (hlt : p < Binary.double.infinityBits) :
    ∃ negative, Binary.exact x = .finite negative (Binary.double.magnitude p) ∧
      (negative = true → p = 0) := by
  rcases h.cases with ⟨rfl, s, hexact, -⟩ | ⟨k, m, hpos, hc, rfl, -, hexact, -⟩ | ⟨rfl, -⟩
  · have hzero : Binary.double.magnitude 0 = 0 := by decide
    exact ⟨_, by rw [hexact, hzero], fun _ => rfl⟩
  · have hmagnitude : Binary.double.magnitude (k * 2 ^ 52 + m) = m * 2 ^ k :=
      hc.magnitude_eq h.lt_signBit
    exact ⟨false, by rw [hexact, hmagnitude], fun h => by cases h⟩
  · exact absurd hlt (Nat.lt_irrefl _)

/-- The pattern of infinity is read as infinity. -/
theorem unpack_infinity (h : HasPattern x Binary.double.infinityBits) :
    x.toModel.unpack = .infinity .positive := by
  rcases h.cases with ⟨hzero, -⟩ | ⟨_, _, _, _, _, hlt, -⟩ | ⟨-, -, hu⟩
  · exact absurd hzero (by decide)
  · exact absurd hlt (Nat.lt_irrefl _)
  · exact hu

/-- The pattern of infinity has no exact value. -/
theorem exact_infinity (h : HasPattern x Binary.double.infinityBits) :
    Binary.exact x = .infinite false := by
  rcases h.cases with ⟨hzero, -⟩ | ⟨_, _, _, _, _, hlt, -⟩ | ⟨-, hexact, -⟩
  · exact absurd hzero (by decide)
  · exact absurd hlt (Nat.lt_irrefl _)
  · exact hexact

end HasPattern

/-- A double with such an exact value is finite and not negative. -/
theorem exists_hasPattern {x : Float} {negative : Bool} {units : Nat}
    (h : Binary.exact x = .finite negative units) (hsign : negative = true → units = 0) :
    ∃ p < Binary.double.infinityBits, HasPattern x p ∧ Binary.double.magnitude p = units := by
  -- What has an exact value is a zero or a finite number, and the sign tells which are negative.
  cases view x with
  | notANumber hexact => rw [hexact] at h; cases h
  | infinite s hexact => rw [hexact] at h; cases h
  | zero s hexact _ hx =>
    rw [hexact] at h
    cases h
    refine ⟨0, by decide, ⟨Nat.zero_le _, ?_⟩, by decide⟩
    cases s
    · exact .inr ⟨rfl, hx⟩
    · exact .inl hx
  | finite s k m hpos hc hexact _ hx hlt =>
    rw [hexact] at h
    cases h
    cases s
    · exact absurd (hsign rfl) (Nat.mul_pos hpos (Nat.two_pow_pos k)).ne'
    · refine ⟨_, hlt, ⟨hlt.le, .inl (hx.trans (Nat.zero_add _))⟩, ?_⟩
      exact hc.magnitude_eq (Nat.lt_trans hlt Binary.double.infinityBits_lt_signBit)

/-! ### Order -/

/-- A number of a coarser last place is larger. -/
theorem compare_canonical {k m k' m' : Nat} (hc : Binary.double.Canonical k m)
    (hc' : Binary.double.Canonical k' m') :
    (compare ((k : Int) - 1074) (k' - 1074)).then (compare m m') =
      compare (k * 2 ^ 52 + m) (k' * 2 ^ 52 + m') := by
  obtain ⟨hm, hnormal⟩ : m < 2 * 2 ^ 52 ∧ (k ≠ 0 → 2 ^ 52 ≤ m) := ⟨hc.lt, hc.normal⟩
  obtain ⟨hm', hnormal'⟩ : m' < 2 * 2 ^ 52 ∧ (k' ≠ 0 → 2 ^ 52 ≤ m') := ⟨hc'.lt, hc'.normal⟩
  -- A coarser last place comes with a full mantissa, which outweighs the mantissa of a finer one.
  rcases Nat.lt_trichotomy k k' with hlt | rfl | hgt
  · have hfull := hnormal' (by omega)
    have hpatterns : k * 2 ^ 52 + m < k' * 2 ^ 52 + m' := by omega
    rw [Int.compare_eq_lt.mpr (by omega), Nat.compare_eq_lt.mpr hpatterns]
    rfl
  · rw [Int.compare_eq_eq.mpr rfl, Ordering.then]
    rcases Nat.lt_trichotomy m m' with hlt | rfl | hgt
    · rw [Nat.compare_eq_lt.mpr hlt, Nat.compare_eq_lt.mpr (by omega)]
    · rw [Nat.compare_eq_eq.mpr rfl, Nat.compare_eq_eq.mpr rfl]
    · rw [Nat.compare_eq_gt.mpr hgt, Nat.compare_eq_gt.mpr (by omega)]
  · have hfull := hnormal (by omega)
    have hpatterns : k' * 2 ^ 52 + m' < k * 2 ^ 52 + m := by omega
    rw [Int.compare_eq_gt.mpr (by omega), Nat.compare_eq_gt.mpr hpatterns]
    rfl

/-- **Doubles that are not negative have the order of their patterns.** -/
theorem HasPattern.compare_eq {x y : Float} {p q : Nat} (hx : HasPattern x p)
    (hy : HasPattern y q) :
    UnpackedFloat.compare x.toModel.unpack y.toModel.unpack = some (compare p q) := by
  have hinf : 0 < Binary.double.infinityBits := by decide
  -- Nine pairs of kinds: zeros, finite numbers and infinity are in this order.
  rcases hx.cases with ⟨rfl, s, -, hu⟩ | ⟨k, m, hpos, hc, rfl, hlt, -, hu⟩ | ⟨rfl, -, hu⟩ <;>
    rcases hy.cases with ⟨rfl, s', -, hu'⟩ | ⟨k', m', hpos', hc', rfl, hlt', -, hu'⟩ |
      ⟨rfl, -, hu'⟩ <;>
    rw [hu, hu']
  · rfl
  · rw [Nat.compare_eq_lt.mpr (by omega)]
    cases s <;> rfl
  · rw [Nat.compare_eq_lt.mpr hinf]
    rfl
  · rw [Nat.compare_eq_gt.mpr (by omega)]
    rfl
  · exact congrArg some (compare_canonical hc hc')
  · rw [Nat.compare_eq_lt.mpr hlt]
    rfl
  · rw [Nat.compare_eq_gt.mpr hinf]
    rfl
  · rw [Nat.compare_eq_gt.mpr hlt']
    rfl
  · rw [Nat.compare_eq_eq.mpr rfl]
    rfl

/-- The order of doubles is that of what they are read as. -/
theorem le_iff_compare {x y : Float} :
    x ≤ y ↔ (UnpackedFloat.compare x.toModel.unpack y.toModel.unpack).any (·.isLE) = true := by
  show decide (x.toModel ≤ y.toModel) = true ↔ _
  rw [decide_eq_true_iff]
  rfl

/-- The strict order of doubles likewise. -/
theorem lt_iff_compare {x y : Float} :
    x < y ↔ UnpackedFloat.compare x.toModel.unpack y.toModel.unpack = some .lt := by
  show decide (x.toModel < y.toModel) = true ↔ _
  rw [decide_eq_true_iff]
  show (_ == some Ordering.lt) = true ↔ _
  rw [beq_iff_eq]

namespace HasPattern

variable {x y : Float} {p q : Nat}

/-- Doubles that are not negative are in the order of their patterns. -/
theorem le_iff (hx : HasPattern x p) (hy : HasPattern y q) : x ≤ y ↔ p ≤ q := by
  rw [le_iff_compare, hx.compare_eq hy]
  exact Nat.isLE_compare

/-- Doubles that are not negative are in the strict order of their patterns. -/
theorem lt_iff (hx : HasPattern x p) (hy : HasPattern y q) : x < y ↔ p < q := by
  rw [lt_iff_compare, hx.compare_eq hy, Option.some.injEq]
  exact Nat.compare_eq_lt

/-- Doubles that are not negative compare equal if their patterns are the same. -/
theorem beq_iff (hx : HasPattern x p) (hy : HasPattern y q) : (x == y) = true ↔ p = q := by
  show (_ == some Ordering.eq) = true ↔ _
  rw [hx.compare_eq hy, beq_iff_eq, Option.some.injEq]
  exact Nat.compare_eq_eq

end HasPattern

/-- The double zero has the pattern without any bits. -/
theorem hasPattern_zero : HasPattern 0 0 := ⟨Nat.zero_le _, .inl (by decide)⟩

/-- What is not negative and no more than zero is zero, of either sign. -/
theorem HasPattern.beq_zero_of_le {x : Float} {p : Nat} (hx : HasPattern x p) (hle : x ≤ 0) :
    (x == 0) = true := by
  rw [hx.le_iff hasPattern_zero, Nat.le_zero] at hle
  exact (hx.beq_iff hasPattern_zero).mpr hle

/-- A double is not a number, not negative or less than zero. -/
theorem sign_cases (x : Float) :
    (Binary.exact x = .notANumber ∧
        ∀ y, UnpackedFloat.compare x.toModel.unpack y = none ∧
          UnpackedFloat.compare y x.toModel.unpack = none) ∨
      (∃ p, HasPattern x p) ∨
      (Binary.exact x = .infinite true ∨ ∃ units ≠ 0, Binary.exact x = .finite true units) ∧
        ∀ y q, HasPattern y q →
          UnpackedFloat.compare x.toModel.unpack y.toModel.unpack = some .lt ∧
            UnpackedFloat.compare y.toModel.unpack x.toModel.unpack = some .gt := by
  -- A zero of either sign counts as not negative; everything else is decided by its sign.
  cases view x with
  | notANumber hexact hu =>
    refine .inl ⟨hexact, fun y => ?_⟩
    rw [hu]
    cases y <;> exact ⟨rfl, rfl⟩
  | zero s _ _ hx =>
    cases s
    · exact .inr (.inl ⟨0, Nat.zero_le _, .inr ⟨rfl, hx⟩⟩)
    · exact .inr (.inl ⟨0, Nat.zero_le _, .inl hx⟩)
  | infinite s hexact hu hx =>
    cases s
    · refine .inr (.inr ⟨.inl hexact, fun y q hy => ?_⟩)
      rw [hu]
      rcases hy.cases with ⟨-, s', -, hu'⟩ | ⟨k', m', hpos', -, -, -, -, hu'⟩ | ⟨-, -, hu'⟩ <;>
        rw [hu'] <;> exact ⟨rfl, rfl⟩
    · exact .inr (.inl ⟨_, Nat.le_refl _, .inl (hx.trans (Nat.zero_add _))⟩)
  | finite s k m hpos hc hexact hu hx hlt =>
    cases s
    · refine .inr (.inr ⟨.inr ⟨_, (Nat.mul_pos hpos (Nat.two_pow_pos k)).ne', hexact⟩,
        fun y q hy => ?_⟩)
      rw [hu]
      rcases hy.cases with ⟨-, s', -, hu'⟩ | ⟨k', m', hpos', -, -, -, -, hu'⟩ | ⟨-, -, hu'⟩ <;>
        rw [hu']
      · cases s' <;> exact ⟨rfl, rfl⟩
      · exact ⟨rfl, rfl⟩
      · exact ⟨rfl, rfl⟩
    · exact .inr (.inl ⟨_, hlt.le, .inl (hx.trans (Nat.zero_add _))⟩)

/-! ### Comparisons with zero -/

/-- The doubles that are not negative are those that have a pattern. -/
theorem zero_le_iff {x : Float} : 0 ≤ x ↔ ∃ p, HasPattern x p := by
  constructor
  · intro h
    rw [le_iff_compare] at h
    rcases sign_cases x with ⟨-, hnan⟩ | hp | ⟨-, hneg⟩
    · rw [(hnan _).2] at h
      cases h
    · exact hp
    · rw [(hneg _ _ hasPattern_zero).2] at h
      cases h
  · rintro ⟨p, hp⟩
    exact (hasPattern_zero.le_iff hp).mpr (Nat.zero_le p)

/-- A double is positive if it has a pattern that is not empty. -/
theorem zero_lt_iff {x : Float} : 0 < x ↔ ∃ p, 0 < p ∧ HasPattern x p := by
  constructor
  · intro h
    have hlt := h
    rw [lt_iff_compare] at h
    rcases sign_cases x with ⟨-, hnan⟩ | ⟨p, hp⟩ | ⟨-, hneg⟩
    · rw [(hnan _).2] at h
      cases h
    · exact ⟨p, (hasPattern_zero.lt_iff hp).mp hlt, hp⟩
    · rw [(hneg _ _ hasPattern_zero).2] at h
      cases h
  · rintro ⟨p, hpos, hp⟩
    exact (hasPattern_zero.lt_iff hp).mpr hpos

/-- A double is finite if it has an exact value. -/
theorem isFinite_iff_exact {x : Float} :
    x.isFinite = true ↔ ∃ negative units, Binary.exact x = .finite negative units := by
  show x.toModel.unpack.isFinite = true ↔ _
  cases view x with
  | notANumber hexact hu => rw [hu, hexact]; simp [UnpackedFloat.isFinite]
  | infinite s hexact hu => rw [hu, hexact]; simp [UnpackedFloat.isFinite]
  | zero s hexact hu => rw [hu, hexact]; simp [UnpackedFloat.isFinite]
  | finite s k m hpos hc hexact hu => rw [hu, hexact]; simp [UnpackedFloat.isFinite]

/-- A double that is not negative is finite if its pattern lies below that of infinity. -/
theorem HasPattern.isFinite_iff {x : Float} {p : Nat} (h : HasPattern x p) :
    x.isFinite = true ↔ p < Binary.double.infinityBits := by
  rw [isFinite_iff_exact]
  rcases Nat.lt_or_eq_of_le h.1 with hlt | rfl
  · obtain ⟨negative, hexact, -⟩ := h.exact_eq hlt
    exact iff_of_true ⟨_, _, hexact⟩ hlt
  · refine iff_of_false ?_ (Nat.lt_irrefl _)
    rintro ⟨negative, units, hexact⟩
    rw [h.exact_infinity] at hexact
    cases hexact

/-- A double is less than zero if its exact value is. -/
theorem lt_zero_iff {x : Float} :
    x < 0 ↔ Binary.exact x = .infinite true ∨
      ∃ units ≠ 0, Binary.exact x = .finite true units := by
  -- What is not a number is less than nothing, and what has a pattern is not less than zero.
  rcases sign_cases x with ⟨hexact, hnan⟩ | ⟨p, hp⟩ | ⟨hexact, hneg⟩
  · rw [lt_iff_compare, (hnan _).1, hexact]
    simp
  · refine iff_of_false (fun h => Nat.not_lt_zero p ((hp.lt_iff hasPattern_zero).mp h)) ?_
    rcases Nat.lt_or_eq_of_le hp.1 with hlt | rfl
    · obtain ⟨negative, hexact, hzero⟩ := hp.exact_eq hlt
      rw [hexact]
      rintro (hinf | ⟨units, hpos, hfinite⟩)
      · cases hinf
      · cases hfinite
        exact hpos (by rw [hzero rfl]; decide)
    · rw [hp.exact_infinity]
      rintro (hinf | ⟨units, -, hfinite⟩)
      · cases hinf
      · cases hfinite
  · exact iff_of_true (lt_iff_compare.mpr (hneg _ _ hasPattern_zero).1) hexact

/-! ### Growing numbers -/

/-- The first number is not negative, and the second is no smaller. -/
structure Grows (x y : Float) : Prop where
  nonneg : 0 ≤ x
  le : x ≤ y

namespace Grows

variable {x y : Float}

/-- Numbers from zero on have patterns in their order. -/
theorem exists_patterns (h : Grows x y) : ∃ p q, HasPattern x p ∧ HasPattern y q ∧ p ≤ q := by
  obtain ⟨p, hp⟩ := zero_le_iff.mp h.nonneg
  have hle := h.le
  rcases sign_cases y with ⟨-, hnan⟩ | ⟨q, hq⟩ | ⟨-, hneg⟩
  · rw [le_iff_compare, (hnan _).2] at hle
    cases hle
  · exact ⟨p, q, hp, hq, (hp.le_iff hq).mp hle⟩
  · rw [le_iff_compare, (hneg _ _ hp).2] at hle
    cases hle

/-- Patterns in order belong to doubles of which one grows into the other. -/
theorem of_patterns {p q : Nat} (hx : HasPattern x p) (hy : HasPattern y q) (h : p ≤ q) :
    Grows x y :=
  ⟨zero_le_iff.mpr ⟨p, hx⟩, (hx.le_iff hy).mpr h⟩

/-- A positive double grows into itself. -/
theorem refl_of_pos (h : 0 < x) : Grows x x := by
  obtain ⟨p, -, hp⟩ := zero_lt_iff.mp h
  exact of_patterns hp hp (Nat.le_refl p)

/-- What grows starts at zero or above. -/
theorem zero_left (h : Grows x y) : Grows 0 y := by
  obtain ⟨p, q, hp, hq, hpq⟩ := h.exists_patterns
  exact of_patterns hasPattern_zero hq (Nat.zero_le q)

/-- What grows from a positive number is positive. -/
theorem pos (h : Grows x y) (hx : 0 < x) : 0 < y := by
  obtain ⟨p, q, hp, hq, hpq⟩ := h.exists_patterns
  have hlt := (hasPattern_zero.lt_iff hp).mp hx
  exact (hasPattern_zero.lt_iff hq).mpr (Nat.lt_of_lt_of_le hlt hpq)

end Grows

end Double

end ClosedLoop
