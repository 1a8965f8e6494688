import ClosedLoop.Engine.Basic
import ClosedLoop.Proofs.Profile.Validation

namespace ClosedLoop

/-!
# The first cause

A set of profiles is checked one profile after the other. The first profile that is invalid or
repeats the id of an earlier one decides the error, and an engine is created for exactly the sets
that are accepted.

* `Refused` — a profile of a list that is invalid or repeats an id;
* `validateAll_ok_iff_forall`, `validateAll_error_iff` — acceptance and errors of a set;
* `Engine.create_ok_iff`, `Engine.create_error_iff` — the same of an engine;
* `Engine.create_first_cause` — **a set is refused for its first cause, by the validation and by
  the creation of an engine alike, and what is accepted stays in its order**.
-/

/-- The profile with this index is invalid or repeats the id of an earlier one. -/
def Refused (profiles : List Profile) (i : Nat) : Prop :=
  ∃ p, profiles[i]? = some p ∧
    (p.validate ≠ .ok () ∨ ∃ j < i, ∃ q, profiles[j]? = some q ∧ q.id = p.id)

variable {profiles : List Profile} {e : ConfigError}

/-- What comes later does not matter. -/
theorem refused_take_iff {n i : Nat} :
    Refused (profiles.take n) i ↔ i < n ∧ Refused profiles i := by
  -- Whether a profile is refused depends on those before it only, and the first ones are kept.
  constructor
  · rintro ⟨p, hp, hcause⟩
    obtain ⟨hi, hp⟩ : i < n ∧ profiles[i]? = some p := by
      rw [List.getElem?_take] at hp
      exact Option.ite_none_right_eq_some.mp hp
    refine ⟨hi, p, hp, hcause.imp_right ?_⟩
    rintro ⟨j, hj, q, hq, hid⟩
    rw [List.getElem?_take_of_lt (Nat.lt_trans hj hi)] at hq
    exact ⟨j, hj, q, hq, hid⟩
  · rintro ⟨hi, p, hp, hcause⟩
    refine ⟨p, by rw [List.getElem?_take_of_lt hi, hp], hcause.imp_right ?_⟩
    rintro ⟨j, hj, q, hq, hid⟩
    exact ⟨j, hj, q, by rw [List.getElem?_take_of_lt (Nat.lt_trans hj hi), hq], hid⟩

/-- A set is accepted if no profile is refused. -/
theorem validateAll_ok_iff_forall (profiles : List Profile) :
    validateAll profiles = .ok () ↔ ∀ i, ¬ Refused profiles i := by
  rw [validateAll_ok_iff, List.nodup_iff_getElem?_ne_getElem?]
  constructor
  -- An id that is repeated is one of an earlier profile.
  · rintro ⟨hvalid, hdistinct⟩ i ⟨p, hp, hinvalid | ⟨j, hj, q, hq, hid⟩⟩
    · exact hinvalid (hvalid p (List.mem_of_getElem? hp))
    · obtain ⟨hi, -⟩ := List.getElem?_eq_some_iff.mp hp
      refine hdistinct j i hj (by rwa [List.length_map]) ?_
      rw [List.getElem?_map, List.getElem?_map, hp, hq, Option.map_some, Option.map_some, hid]
  · intro h
    refine ⟨fun p hp => ?_, fun j i hj hi hsame => ?_⟩
    · obtain ⟨i, hi⟩ := List.mem_iff_getElem?.mp hp
      by_contra hinvalid
      exact h i ⟨p, hi, .inl hinvalid⟩
    · rw [List.length_map] at hi
      have hp := List.getElem?_eq_getElem hi
      have hq := List.getElem?_eq_getElem (Nat.lt_trans hj hi)
      rw [List.getElem?_map, List.getElem?_map, hp, hq] at hsame
      exact h i ⟨_, hp, .inr ⟨j, hj, _, hq, Option.some.inj hsame⟩⟩

/-- An element of a list with those before it is the first one, or one of the rest. -/
theorem exists_split_cons {α : Type} {P : List α → α → Prop} {a : α} {l : List α} :
    (∃ before b after, a :: l = before ++ b :: after ∧ P before b) ↔
      P [] a ∨ ∃ before b after, l = before ++ b :: after ∧ P (a :: before) b := by
  constructor
  · rintro ⟨before, b, after, hsplit, h⟩
    cases before with
    | nil => cases hsplit; exact .inl h
    | cons c before => cases hsplit; exact .inr ⟨before, b, after, rfl, h⟩
  · rintro (h | ⟨before, b, after, rfl, h⟩)
    · exact ⟨[], a, l, rfl, h⟩
    · exact ⟨a :: before, b, after, rfl, h⟩

/-- The check stops at a profile that follows accepted ones. -/
theorem validateAfter_error_iff {seen : List ClientId} :
    validateAfter seen profiles = .error e ↔
      ∃ before p after, profiles = before ++ p :: after ∧ validateAfter seen before = .ok () ∧
        (p.validate = .error e ∨
          p.validate = .ok () ∧ (p.id ∈ seen ∨ p.id ∈ before.map Profile.id) ∧
            e = .duplicateClient p.id) := by
  induction profiles generalizing seen with
  | nil => simp [validateAfter]
  | cons first rest ih =>
    rw [exists_split_cons]
    simp only [validateAfter, List.map_nil, List.not_mem_nil, or_false, true_and, List.map_cons,
      List.mem_cons]
    -- The first profile has an error of its own, repeats an id, or is passed.
    cases hvalid : first.validate with
    | error f => simp
    | ok _ =>
      by_cases hseen : first.id ∈ seen
      · simp [hseen, eq_comm]
      · have hcontains : ¬ seen.contains first.id = true := by simpa using hseen
        simp only [if_neg hcontains, ih, hseen, false_and, and_false, false_or, reduceCtorEq,
          List.mem_cons, or_assoc, or_left_comm]

/-- An id is among those of the first profiles if one of them has it. -/
theorem mem_ids_take_iff {i : Nat} {id : ClientId} :
    id ∈ (profiles.take i).map Profile.id ↔ ∃ j < i, ∃ q, profiles[j]? = some q ∧ q.id = id := by
  rw [List.mem_map]
  constructor
  · rintro ⟨q, hq, hid⟩
    obtain ⟨j, hj⟩ := List.mem_iff_getElem?.mp hq
    rw [List.getElem?_take] at hj
    obtain ⟨hlt, hj⟩ := Option.ite_none_right_eq_some.mp hj
    exact ⟨j, hlt, q, hj, hid⟩
  · rintro ⟨j, hj, q, hq, hid⟩
    rw [← List.getElem?_take_of_lt hj] at hq
    exact ⟨q, List.mem_of_getElem? hq, hid⟩

/-- The error of a set is that of the first profile that is refused. -/
theorem validateAll_error_iff :
    validateAll profiles = .error e ↔
      ∃ i p, profiles[i]? = some p ∧ (∀ j < i, ¬ Refused profiles j) ∧
        (p.validate = .error e ∨
          p.validate = .ok () ∧ (∃ j < i, ∃ q, profiles[j]? = some q ∧ q.id = p.id) ∧
            e = .duplicateClient p.id) := by
  have haccepted (i : Nat) : validateAfter [] (profiles.take i) = .ok () ↔
      ∀ j < i, ¬ Refused profiles j := by
    refine (validateAll_ok_iff_forall _).trans (forall_congr' fun j => ?_)
    rw [refused_take_iff, not_and]
  rw [validateAll, validateAfter_error_iff]
  constructor
  -- The list is split at the profile, whose place is the number of profiles before it.
  · rintro ⟨before, p, after, rfl, hok, hcause⟩
    have htake : (before ++ p :: after).take before.length = before := List.take_left
    refine ⟨before.length, p, by simp, (haccepted _).mp (by rwa [htake]), hcause.imp_right ?_⟩
    rintro ⟨hvalid, hseen, he⟩
    refine ⟨hvalid, mem_ids_take_iff.mp ?_, he⟩
    rw [htake]
    exact hseen.resolve_left List.not_mem_nil
  · rintro ⟨i, p, hp, hbefore, hcause⟩
    obtain ⟨hi, hget⟩ := List.getElem?_eq_some_iff.mp hp
    refine ⟨profiles.take i, p, profiles.drop (i + 1), ?_, (haccepted i).mpr hbefore,
      hcause.imp_right ?_⟩
    · rw [← hget, List.getElem_cons_drop, List.take_append_drop]
    · rintro ⟨hvalid, hrepeat, he⟩
      exact ⟨hvalid, .inr (mem_ids_take_iff.mpr hrepeat), he⟩

namespace Engine

variable {config : EngineConfig}

/-- An engine is created for the sets that are accepted, and has their profiles in order. -/
theorem create_ok_iff {plan : EnginePlan} {logged : List String} :
    create profiles config = .ok (plan, logged) ↔
      validateAll profiles = .ok () ∧ plan = ⟨profiles, config⟩ ∧
        logged = creationWarnings profiles := by
  rw [create, check]
  cases validateAll profiles with
  | error f => simp
  | ok _ => simp [eq_comm]

/-- The engine refuses a set with the error of its validation. -/
theorem create_error_iff :
    create profiles config = .error e ↔ validateAll profiles = .error e := by
  rw [create, check]
  cases validateAll profiles with
  | error f => simp
  | ok _ => simp

/-- **A set is refused for its first cause.** It is accepted if and only if every profile is valid
and all ids are distinct. The error of every other set is decided by the least index at which a
profile is invalid or repeats the id of an earlier one: it is the error of that profile if it is
invalid, and names its id if it is not. An engine is created for exactly the sets that are accepted,
with the profiles in their order, and refuses all others with the same errors. -/
theorem create_first_cause (profiles : List Profile) (config : EngineConfig) :
    (validateAll profiles = .ok () ↔
      (∀ p ∈ profiles, p.validate = .ok ()) ∧ (profiles.map Profile.id).Nodup) ∧
    (∀ e, validateAll profiles = .error e ↔
      ∃ i p, profiles[i]? = some p ∧ Refused profiles i ∧ (∀ j < i, ¬ Refused profiles j) ∧
        (p.validate = .error e ∨ p.validate = .ok () ∧ e = .duplicateClient p.id)) ∧
    (∀ e, create profiles config = .error e ↔ validateAll profiles = .error e) ∧
    ∀ plan logged, create profiles config = .ok (plan, logged) ↔
      validateAll profiles = .ok () ∧ plan.profiles = profiles ∧ plan.config = config ∧
        logged = creationWarnings profiles := by
  refine ⟨validateAll_ok_iff profiles, fun e => ?_, fun e => create_error_iff,
    fun plan logged => ?_⟩
  · rw [validateAll_error_iff]
    constructor
    · rintro ⟨i, p, hp, hbefore, hinvalid | ⟨hvalid, hrepeat, he⟩⟩
      · have hne : p.validate ≠ .ok () := fun hok => by rw [hok] at hinvalid; cases hinvalid
        exact ⟨i, p, hp, ⟨p, hp, .inl hne⟩, hbefore, .inl hinvalid⟩
      · exact ⟨i, p, hp, ⟨p, hp, .inr hrepeat⟩, hbefore, .inr ⟨hvalid, he⟩⟩
    · rintro ⟨i, p, hp, ⟨q, hq, hcause⟩, hbefore, hinvalid | ⟨hvalid, he⟩⟩
      · exact ⟨i, p, hp, hbefore, .inl hinvalid⟩
      · obtain rfl := Option.some.inj (hp.symm.trans hq)
        have hrepeat := hcause.resolve_left fun hne => hne hvalid
        exact ⟨i, p, hp, hbefore, .inr ⟨hvalid, hrepeat, he⟩⟩
  · rw [create_ok_iff]
    cases plan
    simp [and_assoc]

end Engine

end ClosedLoop
