import ClosedLoop.Cost
import ClosedLoop.Proofs.Double.Signs
import ClosedLoop.Proofs.Profile.Conditions

namespace ClosedLoop

/-!
# What a request may cost

The means of a valid profile are finite and not negative, and so is nearly everything that is drawn
with them: a draw may leave the range of the numbers and become infinite, but it is a number and not
negative. The data read are the exception. They are split by a share, and an infinite amount has no
share of zero.

* `Cost.IsSound` — a cost without a negative component or one that is not a number, whose two parts
  of the data read are no larger than the whole;
* `Double.LogNotPositive`, `Distribution.valueAt_exponential` — what is documented of the logarithm,
  and that an exponential draw is the inversion of its distribution then;
* `Distribution.exists_hasPattern_sample` — what is drawn with a mean is not negative;
* `Double.HasPattern.mul_share_iff` — which numbers have a share;
* `Profile.drawCost_isSound_iff` — **a cost is sound unless nothing is read locally of an infinite
  amount**, `Profile.drawCost_not_isSound` — such a cost.
-/

namespace Cost

/-- Every component is a number that is not negative, and neither part of the data read is larger
than the data read. -/
structure IsSound (c : Cost) (read : Float) : Prop where
  notNegative : ∀ x ∈ c.components, 0 ≤ x ∧ x.isNaN = false
  localRead_le : c.localRead ≤ read
  remoteRead_le : c.remoteRead ≤ read

/-- A sound cost has numbers in its parts. -/
theorem IsSound.localRead_isNaN {c : Cost} {read : Float} (h : c.IsSound read) :
    c.localRead.isNaN = false :=
  (h.notNegative c.localRead (by simp [components])).2

end Cost

/-! ### Means and shares -/

namespace Double

variable {x y : Float} {p q : Nat}

/-- A number with a pattern is not negative. -/
theorem HasPattern.notNegative (h : HasPattern x p) : 0 ≤ x ∧ x.isNaN = false :=
  ⟨zero_le_iff.mpr ⟨p, h⟩, h.isNaN_eq_false⟩

/-- What is raised to zero is not negative. -/
theorem exists_hasPattern_atLeastZero (x : Float) : ∃ p, HasPattern (atLeastZero x) p := by
  rw [atLeastZero]
  split
  · rename_i hpos
    obtain ⟨p, -, hp⟩ := zero_lt_iff.mp hpos
    exact ⟨p, hp⟩
  · exact ⟨0, hasPattern_zero⟩

/-- The larger of a number and zero is bounded by what bounds the number. -/
theorem atLeastZero_le (hy : HasPattern y q) (h : x ≤ y) : atLeastZero x ≤ y := by
  rw [atLeastZero]
  split
  · exact h
  · exact (hasPattern_zero.le_iff hy).mpr (Nat.zero_le _)

/-- Whatever the platform has for a logarithm, that of a share is not positive. -/
theorem logOfShare_le_zero (x : Float) : logOfShare x ≤ 0 := by
  rw [logOfShare]
  split
  · assumption
  · exact (hasPattern_zero.le_iff hasPattern_zero).mpr (Nat.le_refl _)

/-- What is documented of the logarithm of the platform: it is not positive up to one. -/
def LogNotPositive : Prop := ∀ x : Float, 0 < x → x ≤ 1 → Float.log x ≤ 0

/-- Where the documentation is right, the logarithm of a share is that of the platform. -/
theorem logOfShare_eq_log (documented : LogNotPositive) (hpos : 0 < x) (hle : x ≤ 1) :
    logOfShare x = Float.log x :=
  if_pos (documented x hpos hle)

/-- What a number from zero to below one lacks to one is a share, and not zero. -/
theorem one_sub_share (hzero : 0 ≤ x) (hone : x < 1) : 0 < 1 - x ∧ 1 - x ≤ 1 := by
  obtain ⟨p, hp⟩ := zero_le_iff.mp hzero
  have hlt := (hp.lt_iff hasPattern_one).mp hone
  -- One minus a share is rounded, so that it has to be shown that it does not become zero.
  have hsub := hasPattern_one.sub hp (by decide) hlt.le
  have hunits := Binary.Format.unitsPerOne_pos Binary.double
  refine ⟨zero_lt_iff.mpr ⟨_, ?_, hsub⟩, ?_⟩
  · -- The patterns differ, so that the numbers differ by one unit at least.
    have hmono := Binary.Format.magnitude_mono hlt.le hasPattern_one.lt_signBit
    have hne : Binary.double.magnitude p ≠ Binary.double.magnitude 0x3ff0000000000000 := by
      intro heq
      have hsame := nearest_magnitude hp.1
      rw [heq, nearest_magnitude hasPattern_one.1] at hsame
      exact absurd hsame hlt.ne'
    have hfirst : Binary.double.magnitude 1 = 1 := by decide
    refine Binary.Format.le_nearest hunits (by decide) (by decide) ?_
    rw [hfirst, Nat.one_mul]
    exact Nat.le_mul_of_pos_left _ (by omega)
  · obtain ⟨r, hr, hpattern⟩ := hasPattern_one.sub_le hp (by decide) hlt.le
    exact (hpattern.le_iff hasPattern_one).mpr hr

end Double

/-- A draw of an exponential distribution is what its inversion says, for any number from zero to
below one. -/
theorem Distribution.valueAt_exponential (documented : Double.LogNotPositive) (mean : Float)
    {u : Float} (hzero : 0 ≤ u) (hone : u < 1) :
    exponential.valueAt mean u = -mean * Float.log (1 - u) := by
  obtain ⟨hpos, hle⟩ := Double.one_sub_share hzero hone
  rw [valueAt, Double.logOfShare_eq_log documented hpos hle]

/-- A mean is a finite number that is not negative. -/
theorem IsMean.exists_hasPattern {x : Float} (h : IsMean x) :
    ∃ p < Binary.double.infinityBits, Double.HasPattern x p := by
  obtain ⟨negative, units, hexact, hsign⟩ := h
  obtain ⟨p, hlt, hp, -⟩ := Double.exists_hasPattern hexact hsign
  exact ⟨p, hlt, hp⟩

/-- A share is a number up to one. -/
theorem IsShare.exists_hasPattern {x : Float} (h : IsShare x) :
    ∃ p < Binary.double.infinityBits, Double.HasPattern x p ∧
      Binary.double.magnitude p ≤ Binary.double.unitsPerOne := by
  obtain ⟨negative, units, hexact, hsign, hle⟩ := h
  obtain ⟨p, hlt, hp, rfl⟩ := Double.exists_hasPattern hexact hsign
  exact ⟨p, hlt, hp, hle⟩

/-! ### Draws -/

namespace Distribution

variable {σ : Type} [WordSource σ] {mean : Float}

/-- What is drawn with a mean is not negative, whatever the word. -/
theorem exists_hasPattern_sample (d : Distribution) (h : IsMean mean) (s : σ) :
    ∃ p, Double.HasPattern (d.sample mean s).1 p := by
  obtain ⟨p, hlt, hp⟩ := h.exists_hasPattern
  rw [sample]
  split
  · exact ⟨0, Double.hasPattern_zero⟩
  · rename_i hmean
    cases d with
    | constant => exact ⟨p, hp⟩
    | uniform spread => exact Double.exists_hasPattern_atLeastZero _
    | exponential =>
      -- The logarithm of a share is not positive, so its negative keeps the sign of the mean.
      have hpos : 0 < p := by
        rw [hp.le_iff Double.hasPattern_zero] at hmean
        omega
      exact Double.zero_le_iff.mp (Double.zero_le_neg_mul (Double.zero_lt_iff.mpr ⟨p, hpos, hp⟩)
        (hp.isFinite_iff.mpr hlt) (Double.logOfShare_le_zero _))

/-- Without scatter the draw is the mean, or zero. -/
theorem isFinite_sample_constant (h : IsMean mean) (s : σ) :
    (constant.sample mean s).1.isFinite = true := by
  obtain ⟨p, hlt, hp⟩ := h.exists_hasPattern
  rw [sample]
  split
  · exact Double.hasPattern_zero.isFinite_iff.mpr (by decide)
  · exact hp.isFinite_iff.mpr hlt

end Distribution

/-! ### The data read -/

namespace Double

variable {x y : Float} {p q : Nat}

/-- A share of a number is no larger than the number, except that infinity has no share of zero. -/
theorem HasPattern.mul_share_iff (hx : HasPattern x p) (hy : IsShare y) :
    ((x.isFinite = true ∨ 0 < y) → (∃ r, HasPattern (x * y) r) ∧ x * y ≤ x) ∧
      (¬ (x.isFinite = true ∨ 0 < y) → (x * y).isNaN = true) := by
  obtain ⟨q, hq, hyq, hshare⟩ := hy.exists_hasPattern
  have hpos : 0 < y ↔ 0 < q := hasPattern_zero.lt_iff hyq
  rw [hpos, hx.isFinite_iff]
  -- A share of infinity is infinity, unless the share is zero.
  rcases Nat.lt_or_eq_of_le hx.1 with hp | rfl
  · obtain ⟨hr, hle⟩ := hx.mul_share hyq hp hq hshare
    exact ⟨fun _ => ⟨⟨_, hr⟩, (hr.le_iff hx).mpr hle⟩, fun h => absurd (.inl hp) h⟩
  · constructor
    · rintro (h | h)
      · exact absurd h (Nat.lt_irrefl _)
      · have hr := hx.infinite_mul hyq h
        exact ⟨⟨_, hr⟩, (hr.le_iff hx).mpr (Nat.le_refl _)⟩
    · intro h
      rw [not_or, Nat.not_lt, Nat.not_lt, Nat.le_zero] at h
      rw [h.2] at hyq
      exact hx.isNaN_infinite_mul_zero hyq

/-- What a share leaves is no larger than the number either; nothing is left of infinity. -/
theorem HasPattern.atLeastZero_sub_le (hx : HasPattern x p) (hy : IsShare y) :
    atLeastZero (x - x * y) ≤ x := by
  obtain ⟨q, hq, hyq, hshare⟩ := hy.exists_hasPattern
  rcases Nat.lt_or_eq_of_le hx.1 with hp | rfl
  · obtain ⟨hr, hle⟩ := hx.mul_share hyq hp hq hshare
    obtain ⟨r, hrle, hsub⟩ := hx.sub_le hr hp hle
    exact atLeastZero_le hx ((hsub.le_iff hx).mpr hrle)
  · obtain ⟨r, hr⟩ := exists_hasPattern_atLeastZero (x - x * y)
    exact (hr.le_iff hx).mpr hr.1

end Double

/-! ### Costs -/

namespace Profile

variable {σ : Type} [WordSource σ] (p : Profile) (s : σ)

/-- The data that the next request reads, locally and remotely. -/
def drawnRead : Float := (p.distribution.sample p.readSize s).1

/-- The components of a cost are draws with means of the profile, but for the two parts of the data
read. -/
theorem drawCost_eq :
    ∃ s₁ s₂ s₃ s₄ s₅ s₆ : σ, (p.drawCost s).1 =
      { cpuTime := (p.distribution.sample p.rpcTime s₁).1
        memWrite := (p.distribution.sample p.memUpdateSize s₂).1
        logWrite := (p.distribution.sample p.logAppendSize s₃).1
        lookupTime := (p.distribution.sample p.lookupTime s₄).1
        localRead := p.drawnRead s * p.shortCircuitRatio
        remoteRead := atLeastZero (p.drawnRead s - p.drawnRead s * p.shortCircuitRatio)
        request := (p.distribution.sample p.rpcSize s₅).1
        response := (p.distribution.sample p.replySize s₆).1 } :=
  ⟨_, _, _, _, _, _, rfl⟩

/-- **The costs of a valid profile are sound unless nothing is read locally of an infinite amount.**
With any source of words and any distribution, all components but the data read locally are numbers
that are not negative, and the data read remotely are no more than the data read. The same holds of
the data read locally if and only if the data read are finite or a positive share of them is read
locally; else the data read locally are not a number. A profile without scatter reads a finite
amount. -/
theorem drawCost_isSound_iff (h : p.validate = .ok ()) :
    ({ (p.drawCost s).1 with localRead := 0 } : Cost).IsSound (p.drawnRead s) ∧
      ((p.drawCost s).1.IsSound (p.drawnRead s) ↔
        (p.drawnRead s).isFinite = true ∨ 0 < p.shortCircuitRatio) ∧
      (¬ (p.drawCost s).1.IsSound (p.drawnRead s) → (p.drawCost s).1.localRead.isNaN = true) ∧
      (p.distribution = .constant → (p.drawCost s).1.IsSound (p.drawnRead s)) := by
  have hmeets := (validate_ok_iff_meets p).mp h
  have hratio : IsShare p.shortCircuitRatio := hmeets .shortCircuitRatio
  obtain ⟨q, hread⟩ : ∃ q, Double.HasPattern (p.drawnRead s) q :=
    Distribution.exists_hasPattern_sample _ (hmeets .readSize) s
  have hdrawn {mean : Float} (hmean : IsMean mean) (s' : σ) :
      0 ≤ (p.distribution.sample mean s').1 ∧ (p.distribution.sample mean s').1.isNaN = false :=
    (p.distribution.exists_hasPattern_sample hmean s').choose_spec.notNegative
  obtain ⟨s₁, s₂, s₃, s₄, s₅, s₆, heq⟩ := p.drawCost_eq s
  -- Everything but the data read locally is sound, whatever stands in its place.
  have hrest (part : Float) (hpart : 0 ≤ part ∧ part.isNaN = false) (hle : part ≤ p.drawnRead s) :
      ({ (p.drawCost s).1 with localRead := part } : Cost).IsSound (p.drawnRead s) := by
    refine ⟨?_, hle, by rw [heq]; exact hread.atLeastZero_sub_le hratio⟩
    rw [heq]
    simp only [Cost.components, List.forall_mem_cons, List.not_mem_nil, false_implies,
      implies_true, and_true]
    exact ⟨hdrawn (hmeets .rpcTime).1 s₁, hdrawn (hmeets .memUpdateSize) s₂,
      hdrawn (hmeets .logAppendSize) s₃, hdrawn (hmeets .lookupTime).1 s₄, hpart,
      (Double.exists_hasPattern_atLeastZero _).choose_spec.notNegative,
      hdrawn (hmeets .rpcSize) s₅, hdrawn (hmeets .replySize) s₆⟩
  have hlocal : (p.drawCost s).1.localRead = p.drawnRead s * p.shortCircuitRatio := by rw [heq]
  obtain ⟨hshare, hnone⟩ := hread.mul_share_iff hratio
  have hsound (hcase : (p.drawnRead s).isFinite = true ∨ 0 < p.shortCircuitRatio) :
      (p.drawCost s).1.IsSound (p.drawnRead s) := by
    obtain ⟨⟨r, hr⟩, hle⟩ := hshare hcase
    rw [← hlocal] at hr hle
    exact hrest _ hr.notNegative hle
  have hnan (hcase : ¬ ((p.drawnRead s).isFinite = true ∨ 0 < p.shortCircuitRatio)) :
      (p.drawCost s).1.localRead.isNaN = true := hlocal ▸ hnone hcase
  refine ⟨hrest 0 Double.hasPattern_zero.notNegative
    ((Double.hasPattern_zero.le_iff hread).mpr (Nat.zero_le _)), ⟨fun hs => ?_, hsound⟩,
    fun h => hnan (mt hsound h), fun hconstant => hsound (.inl ?_)⟩
  · by_contra hcase
    exact Bool.false_ne_true (hs.localRead_isNaN.symm.trans (hnan hcase))
  · rw [drawnRead, hconstant]
    exact Distribution.isFinite_sample_constant (hmeets .readSize) s

/-- Close to the largest number of megabytes is read remotely, scattered up to twice the mean. -/
def hugeRead : Profile :=
  { blank 1 "reader" with readSize := 1.7e308, distribution := .uniform 1 }

/-- The profile is accepted. -/
theorem hugeRead_valid : hugeRead.validate = .ok () := by
  rw [validate_ok_iff]
  decide +kernel

/-- The smallest word makes a sound cost of it. -/
theorem drawCost_isSound_iff_hugeRead :
    hugeRead.validate = .ok () ∧
      (hugeRead.drawCost (Cycle.ofList [0])).1.IsSound (hugeRead.drawnRead (Cycle.ofList [0])) :=
  ⟨hugeRead_valid,
    (drawCost_isSound_iff hugeRead (Cycle.ofList [0]) hugeRead_valid).2.1.mpr
      (.inl (by decide +kernel))⟩

/-- With the largest word the data read are infinite, and the data read locally not a number. -/
theorem drawCost_not_isSound :
    hugeRead.validate = .ok () ∧
      ¬ (hugeRead.drawCost (Cycle.ofList [0xffffffffffffffff])).1.IsSound
        (hugeRead.drawnRead (Cycle.ofList [0xffffffffffffffff])) := by
  refine ⟨hugeRead_valid, fun h => ?_⟩
  have hnan : (hugeRead.drawCost
      (Cycle.ofList [0xffffffffffffffff])).1.localRead.isNaN = true := by
    decide +kernel
  exact Bool.false_ne_true (h.localRead_isNaN.symm.trans hnan)

end Profile

end ClosedLoop
