import ClosedLoop.Proofs.Profile.Conditions
import ClosedLoop.Proofs.Profile.Sections
import ClosedLoop.Setup.ProfileSource

namespace ClosedLoop

/-!
# What overrides can change

Profiles are checked when they are loaded and once more with the overrides. Each field has a
condition of its own, so the second check can only fail for a value that was given, and then it
fails for every profile alike.

* `Overrides.given` — the value given for a field, `Overrides.get_apply` — the fields of a profile
  with the overrides;
* `Overrides.Usable`, `Overrides.validate_apply_iff` — values that meet the conditions of their
  fields, and that nothing else decides whether a valid profile stays valid;
* `ProfileSource.validateAll_of_loadPlain` — what is loaded has been checked;
* `ProfileSource.load_overridden` — **overrides reach every profile, touch nothing else, and can
  fail only for themselves**.
-/

namespace Overrides

/-- The value given for a field. -/
def given (o : Overrides) : Field → Option Datum
  | .numInstances => o.numInstances.map .count
  | .thinkTime => o.thinkTime.map .double
  | .monitorInterval => o.monitorInterval.map .double
  | .shortCircuitRatio => o.shortCircuitRatio.map .double
  | _ => Option.none

/-- A profile and the one that the overrides make of it: each field has the value that is given, and
without one its own. -/
def Replaces (o : Overrides) (p q : Profile) : Prop :=
  ∀ f, q.get f = (o.given f).getD (p.get f)

/-- Every value that is given meets the condition of its field. -/
def Usable (o : Overrides) : Prop :=
  ∀ f, (o.given f).isSome → ∀ p, (o.apply p).Meets f

variable (o : Overrides) {p : Profile} {profiles : List Profile}

/-- A field has the value that is given, or the one of the profile. -/
theorem get_apply (p : Profile) (f : Field) : (o.apply p).get f = (o.given f).getD (p.get f) := by
  obtain ⟨instances, think, interval, ratio⟩ := o
  cases f
  case numInstances => cases instances <;> rfl
  case thinkTime => cases think <;> rfl
  case monitorInterval => cases interval <;> rfl
  case shortCircuitRatio => cases ratio <;> rfl
  all_goals rfl

/-- Applying overrides twice is applying them once. -/
theorem apply_apply (p : Profile) : o.apply (o.apply p) = o.apply p := by
  refine Profile.ext_get fun f => ?_
  rw [get_apply, get_apply]
  cases o.given f <;> rfl

end Overrides

/-- The condition of a field is one on its value. -/
theorem Profile.meets_congr {p q : Profile} {f : Field} (h : p.get f = q.get f) :
    p.Meets f ↔ q.Meets f := by
  cases f <;> cases p <;> cases q <;> simp_all [Profile.get, Profile.Meets]

namespace Overrides

variable (o : Overrides) {p : Profile} {profiles : List Profile}

/-- Only the values that are given decide whether a valid profile stays valid. -/
theorem validate_apply_iff (h : p.validate = .ok ()) :
    (o.apply p).validate = .ok () ↔ o.Usable := by
  rw [Profile.validate_ok_iff_meets] at h ⊢
  constructor
  -- A given value is in every profile after the overrides.
  · intro happlied f hgiven q
    refine (Profile.meets_congr ?_).mp (happlied f)
    rw [get_apply, get_apply]
    obtain ⟨d, hd⟩ := Option.isSome_iff_exists.mp hgiven
    rw [hd, Option.getD_some, Option.getD_some]
  · intro husable f
    cases hgiven : o.given f with
    | some d => exact husable f (Option.isSome_of_eq_some hgiven) p
    | none =>
      refine (Profile.meets_congr ?_).mpr (h f)
      rw [get_apply, hgiven, Option.getD_none]

/-- A field with a flaw in a profile that was valid has been given its value. -/
theorem isSome_given_of_not_meets {f : Field} (h : p.validate = .ok ())
    (hflaw : ¬ (o.apply p).Meets f) : (o.given f).isSome := by
  rw [← Option.ne_none_iff_isSome]
  intro hgiven
  refine hflaw ((Profile.meets_congr ?_).mpr ((Profile.validate_ok_iff_meets p).mp h f))
  rw [get_apply, hgiven, Option.getD_none]

/-- Values are given for these fields only. -/
theorem mem_fields_of_isSome_given {f : Field} (h : (o.given f).isSome) :
    f ∈ [Field.numInstances, .thinkTime, .monitorInterval, .shortCircuitRatio] := by
  cases f <;> first | decide | cases h

/-- Profiles that are valid as a set stay valid with usable values, and no ids can clash. -/
theorem validateAll_map_apply (h : validateAll profiles = .ok ()) (husable : o.Usable) :
    validateAll (profiles.map o.apply) = .ok () := by
  rw [validateAll_ok_iff] at h ⊢
  refine ⟨?_, by rw [List.map_map]; exact h.2⟩
  rw [List.forall_mem_map]
  exact fun p hp => (o.validate_apply_iff (h.1 p hp)).mpr husable

/-- With a value that is not usable the first profile gives the error. -/
theorem validateAll_map_apply_cons {first : Profile} {rest : List Profile} {e : ConfigError}
    (h : validateAll (first :: rest) = .ok ())
    (he : validateAll ((first :: rest).map o.apply) = .error e) :
    ∃ field flaw, e = .invalidProfile first.id field flaw ∧ (o.given field).isSome ∧
      ¬ (o.apply first).Meets field := by
  have hfirst := ((validateAll_ok_iff _).mp h).1 first List.mem_cons_self
  cases hvalid : (o.apply first).validate with
  | ok _ =>
    -- If the first profile stays valid, the values are usable, and the others stay valid as well.
    have hall := o.validateAll_map_apply h ((o.validate_apply_iff hfirst).mp hvalid)
    rw [hall] at he
    cases he
  | error e' =>
    rw [validateAll, List.map_cons, validateAfter, hvalid] at he
    cases he
    obtain ⟨field, flaw, hflaw, rfl⟩ := Profile.validate_error_iff.mp hvalid
    have hnot := Profile.not_meets_of_flaw? hflaw
    exact ⟨field, flaw, rfl, o.isSome_given_of_not_meets hfirst hnot, hnot⟩

end Overrides

/-! ### Loading -/

/-- The clients of the scenarios are valid. -/
theorem Scenario.validateAll_profiles (c : Scenario) : validateAll c.profiles = .ok () := by
  rw [validateAll_ok_iff]
  simp only [Profile.validate_ok_iff]
  cases c <;> decide +kernel

namespace ProfileSource

variable {s : ProfileSource} {read : String → Except FileError String} {plain : List Profile}
  {warnings : List String}

/-- What is loaded has been checked before the overrides. -/
theorem validateAll_of_loadPlain (h : s.loadPlain read = (.ok plain, warnings)) :
    validateAll plain = .ok () := by
  -- Scenarios are valid, and a file is loaded only if its sections are.
  rw [loadPlain] at h
  cases hpath : s.path with
  | none =>
    rw [hpath] at h
    cases h
    exact s.scenarioOrStandard.validateAll_profiles
  | some path =>
    simp only [hpath] at h
    cases hread : read path with
    | error cause => rw [hread] at h; cases h
    | ok text =>
      simp only [hread] at h
      cases hparse : Json.parseObject text with
      | error e => rw [hparse] at h; cases h
      | ok members =>
        simp only [hparse, Prod.mk.injEq] at h
        cases hload : (Section.load s.fragment (Section.ofMembers members)).1 with
        | error e => rw [hload] at h; cases h.1
        | ok found =>
          rw [hload] at h
          cases h.1
          exact (Section.load_ok_iff.mp hload).2

/-- Loading gives the profiles with the overrides if these are valid. -/
theorem load_ok_iff (h : s.loadPlain read = (.ok plain, warnings)) {loaded : List Profile} :
    (s.load read).1 = .ok loaded ↔
      validateAll (plain.map s.overrides.apply) = .ok () ∧
        plain.map s.overrides.apply = loaded := by
  rw [load, h]
  dsimp only
  cases validateAll (plain.map s.overrides.apply) <;> simp

/-- Loading fails if the profiles with the overrides are not valid. -/
theorem load_error_iff (h : s.loadPlain read = (.ok plain, warnings)) {e : LoadError} :
    (s.load read).1 = .error e ↔
      ∃ cause, validateAll (plain.map s.overrides.apply) = .error cause ∧ .invalid cause = e := by
  rw [load, h]
  dsimp only
  cases validateAll (plain.map s.overrides.apply) <;> simp

/-- Overrides add no warning. -/
theorem load_warnings (h : s.loadPlain read = (.ok plain, warnings)) :
    (s.load read).2 = warnings := by
  rw [load, h]
  dsimp only
  cases validateAll (plain.map s.overrides.apply) <;> rfl

/-- **Overrides reach every profile, touch nothing else, and can fail only for themselves.** Where
profiles are loaded from a scenario or a file, the overrides add no warning, and they fail only if
there is a profile and a value that does not meet the condition of its field. Without failure the
profiles are those that were loaded, in their order, each with the values that are given in place of
its own; as a set they are valid, and applying the overrides once more changes nothing. A failure is
that of the first profile, in a field for which a value is given that does not meet the condition of
the field. -/
theorem load_overridden (s : ProfileSource) (read : String → Except FileError String)
    (plain : List Profile) (warnings : List String)
    (h : s.loadPlain read = (.ok plain, warnings)) :
    (s.load read).2 = warnings ∧
      ((∃ loaded, (s.load read).1 = .ok loaded) ↔ plain = [] ∨ s.overrides.Usable) ∧
      (∀ loaded, (s.load read).1 = .ok loaded →
        List.Forall₂ s.overrides.Replaces plain loaded ∧ validateAll loaded = .ok () ∧
          loaded.map s.overrides.apply = loaded) ∧
      ∀ e, (s.load read).1 = .error e →
        ∃ first rest field flaw, plain = first :: rest ∧
          e = .invalid (.invalidProfile first.id field flaw) ∧
          field ∈ [Field.numInstances, .thinkTime, .monitorInterval, .shortCircuitRatio] ∧
          (s.overrides.given field).isSome ∧ ¬ (s.overrides.apply first).Meets field := by
  have hplain := validateAll_of_loadPlain h
  refine ⟨load_warnings h, ?_, fun loaded hloaded => ?_, fun e he => ?_⟩
  · simp only [load_ok_iff h, exists_and_left, exists_eq', and_true]
    constructor
    · intro hvalid
      -- Without profiles there is nothing to fail, whatever is given.
      cases plain with
      | nil => exact .inl rfl
      | cons first rest =>
        have hfirst := ((validateAll_ok_iff _).mp hplain).1 first List.mem_cons_self
        have happlied := ((validateAll_ok_iff _).mp hvalid).1 _ List.mem_cons_self
        exact .inr ((s.overrides.validate_apply_iff hfirst).mp happlied)
    · rintro (rfl | husable)
      · rfl
      · exact s.overrides.validateAll_map_apply hplain husable
  · obtain ⟨hvalid, rfl⟩ := (load_ok_iff h).mp hloaded
    refine ⟨?_, hvalid, ?_⟩
    · rw [List.forall₂_map_right_iff, List.forall₂_same]
      exact fun p _ => s.overrides.get_apply p
    · rw [List.map_map]
      exact List.map_congr_left fun p _ => s.overrides.apply_apply p
  · obtain ⟨cause, hcause, rfl⟩ := (load_error_iff h).mp he
    cases plain with
    | nil => cases hcause
    | cons first rest =>
      obtain ⟨field, flaw, rfl, hgiven, hnot⟩ :=
        s.overrides.validateAll_map_apply_cons hplain hcause
      exact ⟨first, rest, field, flaw, rfl, rfl, s.overrides.mem_fields_of_isSome_given hgiven,
        hgiven, hnot⟩

/-- Two classes of readers, with one instance each and a share that is none. -/
def overriddenReaders : ProfileSource where
  path := none
  scenario := some .readHeavy
  fragment := defaultSectionFragment
  overrides := { Overrides.none with numInstances := some 1, shortCircuitRatio := some 2 }

/-- There are no files. -/
def noFiles (_path : String) : Except FileError String := .error .notFound

/-- The share is refused in the first class, and the number of instances is not. -/
theorem load_overridden_readers :
    overriddenReaders.loadPlain noFiles = (.ok Scenario.readHeavy.profiles, []) ∧
      ∃ flaw, (overriddenReaders.load noFiles).1 =
        .error (.invalid (.invalidProfile 1 .shortCircuitRatio flaw)) := by
  have hplain : overriddenReaders.loadPlain noFiles = (.ok Scenario.readHeavy.profiles, []) := rfl
  obtain ⟨-, hiff, -, hfail⟩ := load_overridden overriddenReaders noFiles _ _ hplain
  refine ⟨hplain, ?_⟩
  cases hload : (overriddenReaders.load noFiles).1 with
  | ok loaded =>
    obtain hnil | husable := hiff.mp ⟨loaded, hload⟩
    · cases hnil
    · have hshare : IsShare 2 := husable .shortCircuitRatio rfl (Profile.blank 1 "get")
      exact absurd (isRatio_iff.mpr hshare) (by decide +kernel)
  | error e =>
    obtain ⟨first, rest, field, flaw, hfirst, rfl, -, hgiven, hnot⟩ := hfail e hload
    cases hfirst
    cases field
    case shortCircuitRatio => exact ⟨flaw, rfl⟩
    case numInstances => exact absurd (Nat.le_refl 1) hnot
    all_goals cases hgiven

end ProfileSource

end ClosedLoop
