import ClosedLoop.Profile.Validation
import Mathlib.Data.List.Nodup

namespace ClosedLoop

/-!
# What the validation of profiles promises

* `Profile.validate_ok_iff` — a profile is accepted if none of its fields has a flaw;
* `validateAll_ok_iff` — a set of profiles is accepted if every profile is, and their ids are
  distinct.
-/

/-- A profile is accepted if none of its fields has a flaw. -/
theorem Profile.validate_ok_iff (p : Profile) : p.validate = .ok () ↔ p.flaw?.isNone := by
  rw [Profile.validate]
  generalize p.flaw? = flaw
  cases flaw <;> simp

/-- Profiles are accepted after others if all are valid and no id comes twice. -/
private theorem validateAfter_ok_iff (seen : List ClientId) (profiles : List Profile) :
    validateAfter seen profiles = .ok () ↔
      (∀ p ∈ profiles, p.validate = .ok ()) ∧ (profiles.map Profile.id).Nodup ∧
        ∀ p ∈ profiles, p.id ∉ seen := by
  induction profiles generalizing seen with
  | nil => simp [validateAfter]
  | cons p rest ih =>
    rw [validateAfter, List.map_cons, List.nodup_cons]
    simp only [List.forall_mem_cons]
    cases hvalid : p.validate with
    | error fault => simp
    | ok _ =>
      -- The id comes twice, or joins those that have been seen.
      by_cases hseen : p.id ∈ seen
      · simp [hseen]
      · have hcontains : seen.contains p.id = false := by simpa using hseen
        simp only [hcontains, Bool.false_eq_true, if_false, ih, List.mem_cons, not_or, List.mem_map,
          hseen, not_false_eq_true, true_and, not_exists, not_and]
        constructor
        · rintro ⟨hall, hnodup, hids⟩
          refine ⟨hall, ⟨fun q hq heq => (hids q hq).1 heq, hnodup⟩, fun q hq => (hids q hq).2⟩
        · rintro ⟨hall, ⟨hfirst, hnodup⟩, hids⟩
          exact ⟨hall, hnodup, fun q hq => ⟨hfirst q hq, hids q hq⟩⟩

/-- Profiles are accepted together if each of them is and no id occurs twice. -/
theorem validateAll_ok_iff (profiles : List Profile) :
    validateAll profiles = .ok () ↔
      (∀ p ∈ profiles, p.validate = .ok ()) ∧ (profiles.map Profile.id).Nodup := by
  rw [validateAll, validateAfter_ok_iff]
  simp

/-- The order of the profiles does not matter for that. -/
theorem validateAll_ok_of_perm {profiles others : List Profile} (h : profiles.Perm others)
    (hvalid : validateAll others = .ok ()) : validateAll profiles = .ok () := by
  obtain ⟨heach, hids⟩ := (validateAll_ok_iff others).mp hvalid
  exact (validateAll_ok_iff profiles).mpr
    ⟨fun p hp => heach p (h.mem_iff.mp hp), (h.map Profile.id).nodup_iff.mpr hids⟩

end ClosedLoop
