import ClosedLoop.Proofs.Engine.Turns
import ClosedLoop.Proofs.Profile.Validation
import Mathlib.Algebra.BigOperators.Group.Finset.Piecewise
import Mathlib.Algebra.BigOperators.Intervals

namespace ClosedLoop

/-!
# The instances of a client

* `Engine.placesOf`, `Engine.eventsFor` — the places of the instances of a client among all
  instances, and the events that tell of them;
* `Engine.sum_eventsFor`, `Engine.countP_eventsFor` — what adds up for a client adds up for its
  instances;
* `Engine.card_placesOf` — a client has as many instances as its profile asks for.
-/

namespace Engine

/-- The client of the instance at a place. -/
def clientAt? (e : Engine) (i : Nat) : Option ClientId := (e.instances.map Instance.client)[i]?

/-- The places of the instances of a client. -/
def placesOf (e : Engine) (c : ClientId) : Finset Nat :=
  (Finset.range e.instances.length).filter fun i => e.clientAt? i = some c

/-- The events that tell of the instances of a client. -/
def eventsFor (e : Engine) (c : ClientId) (events : List Event) : List Event :=
  events.filter fun event => event.instance?.bind e.clientAt? = some c

/-- The places of a client are those at which it has an instance. -/
theorem mem_placesOf {e : Engine} {c : ClientId} {i : Nat} :
    i ∈ e.placesOf c ↔ e.clientAt? i = some c := by
  rw [placesOf, Finset.mem_filter, Finset.mem_range, and_iff_right_iff_imp]
  intro h
  have hlt := (List.getElem?_eq_some_iff.mp h).1
  rwa [List.length_map] at hlt

@[simp] theorem eventsFor_append (e : Engine) (c : ClientId) (before after : List Event) :
    e.eventsFor c (before ++ after) = e.eventsFor c before ++ e.eventsFor c after :=
  List.filter_append before after

section Sums

variable {M : Type} [AddCommMonoid M]

/-- One event counts for the client of its instance. -/
private theorem sum_singleton_eventsFor (e : Engine) (c : ClientId) (f : Event → M)
    (event : Event) :
    ∑ i ∈ e.placesOf c, ((eventsOf i [event]).map f).sum = ((e.eventsFor c [event]).map f).sum := by
  cases htold : event.instance? with
  | none =>
    have hfor : e.eventsFor c [event] = [] := by simp [eventsFor, htold]
    rw [hfor]
    refine Finset.sum_eq_zero fun i _ => ?_
    rw [eventsOf_singleton, htold, if_neg (by simp)]
    rfl
  | some k =>
    -- The event belongs to the place `k` and adds nothing at any other place.
    have hterm : ∀ i, ((eventsOf i [event]).map f).sum = if k = i then f event else 0 := by
      intro i
      rw [eventsOf_singleton, htold]
      by_cases hi : k = i <;> simp [hi]
    rw [Finset.sum_congr rfl fun i _ => hterm i, Finset.sum_ite_eq]
    by_cases hk : k ∈ e.placesOf c
    · have hfor : e.eventsFor c [event] = [event] := by
        simp [eventsFor, htold, mem_placesOf.mp hk]
      rw [if_pos hk, hfor]
      simp
    · have hfor : e.eventsFor c [event] = [] := by
        rw [mem_placesOf] at hk
        simp [eventsFor, htold, hk]
      rw [if_neg hk, hfor]
      rfl

/-- What the events add up to for a client is what they add up to for its instances. -/
theorem sum_eventsFor (e : Engine) (c : ClientId) (f : Event → M) (events : List Event) :
    ((e.eventsFor c events).map f).sum =
      ∑ i ∈ e.placesOf c, ((eventsOf i events).map f).sum := by
  -- An event adds as much for the client as for its instances, so both sides grow alike.
  induction events with
  | nil => exact (Finset.sum_eq_zero fun _ _ => rfl).symm
  | cons event rest ih =>
    have hsplit : event :: rest = [event] ++ rest := rfl
    rw [hsplit, eventsFor_append, List.map_append, List.sum_append, ih, ← sum_singleton_eventsFor,
      ← Finset.sum_add_distrib]
    refine Finset.sum_congr rfl fun i _ => ?_
    rw [eventsOf_append, List.map_append, List.sum_append]

end Sums

/-- What the events tell of a client is what they tell of its instances. -/
theorem countP_eventsFor (e : Engine) (c : ClientId) (p : Event → Bool) (events : List Event) :
    (e.eventsFor c events).countP p = ∑ i ∈ e.placesOf c, (eventsOf i events).countP p := by
  -- A count is a sum of ones and zeros.
  have hsum : ∀ l : List Event, l.countP p = (l.map fun event => if p event then 1 else 0).sum := by
    intro l
    induction l with
    | nil => rfl
    | cons event rest ih => rw [List.countP_cons, List.map_cons, List.sum_cons, ih, Nat.add_comm]
  simp only [hsum]
  exact sum_eventsFor e c _ events

/-! ### How many they are -/

/-- There are as many places of a client as times it occurs. -/
private theorem card_filter_getElem? (l : List ClientId) (c : ClientId) :
    ((Finset.range l.length).filter fun i => l[i]? = some c).card = l.count c := by
  rw [Finset.card_filter]
  induction l with
  | nil => rfl
  | cons x rest ih =>
    rw [List.length_cons, Finset.sum_range_succ', List.count_cons]
    simp only [List.getElem?_cons_succ, List.getElem?_cons_zero, ih, Option.some.injEq, beq_iff_eq]

/-- The places of a client, counted by its instances. -/
theorem card_placesOf_eq_count (e : Engine) (c : ClientId) :
    (e.placesOf c).card = (e.instances.map Instance.client).count c := by
  rw [← card_filter_getElem?, List.length_map]
  rfl

/-- The instances of a client are those of the profiles with its id. -/
theorem count_client_instancesFrom (seed : UInt64) (profiles : List Profile) (c : ClientId) :
    ((instancesFrom seed profiles).map Instance.client).count c =
      ((profiles.filter (·.id = c)).map (·.instances.toNat)).sum := by
  induction profiles generalizing seed with
  | nil => rfl
  | cons p rest ih =>
    rw [instancesFrom, List.map_append, List.count_append, ih, List.map_map]
    -- All instances of the first profile are instances of its client.
    have hown : (List.map (Instance.client ∘ fun index =>
        (⟨p, index, Xoshiro.ofSeed (seed + UInt64.ofNat index), .fresh⟩ : Instance))
        (List.range p.instances.toNat)) = List.replicate p.instances.toNat p.id := by
      rw [List.eq_replicate_iff]
      simp [Instance.client]
    rw [hown, List.count_replicate]
    by_cases hid : p.id = c
    · simp [hid]
    · simp [hid]

/-- Distinct ids tell profiles apart. -/
private theorem filter_id_of_nodup {profiles : List Profile} (h : (profiles.map Profile.id).Nodup)
    {p : Profile} (hp : p ∈ profiles) : profiles.filter (·.id = p.id) = [p] := by
  induction profiles with
  | nil => cases hp
  | cons q rest ih =>
    rw [List.map_cons, List.nodup_cons] at h
    obtain ⟨hq, hrest⟩ := h
    -- The profile in question comes first or later; either way all others have other ids.
    rcases List.mem_cons.mp hp with rfl | hmem
    · have hnone : rest.filter (·.id = p.id) = [] := by
        refine List.filter_eq_nil_iff.mpr ?_
        intro r hr hid
        exact hq (List.mem_map.mpr ⟨r, hr, of_decide_eq_true hid⟩)
      rw [List.filter_cons_of_pos (by simp), hnone]
    · have hne : q.id ≠ p.id := by
        intro hid
        exact hq (List.mem_map.mpr ⟨p, hmem, hid.symm⟩)
      rw [List.filter_cons_of_neg (by simpa using hne), ih hrest hmem]

/-- **A client has as many instances as its profile asks for.** -/
theorem card_placesOf {config : EngineConfig} {profiles : List Profile}
    (accepted : Engine.check profiles = .ok ()) {p : Profile} (hp : p ∈ profiles) :
    ((start config profiles).placesOf p.id).card = p.instances.toNat := by
  have hnodup := ((validateAll_ok_iff profiles).mp accepted).2
  rw [card_placesOf_eq_count]
  show ((instancesFrom config.seed profiles).map Instance.client).count p.id = _
  rw [count_client_instancesFrom]
  rw [filter_id_of_nodup hnodup hp]
  rfl

/-- The instances stay where they are. -/
theorem clientAt?_run? {e e' : Engine} {as : List Action} {shown : List Event}
    (h : e.run? as = some (e', shown)) : e'.clientAt? = e.clientAt? := by
  have hclients : e'.instances.map Instance.client = e.instances.map Instance.client := by
    have hframe := congrArg (List.map fun place => place.1.id) (run?_frame h)
    rw [List.map_map, List.map_map] at hframe
    exact hframe
  funext i
  rw [clientAt?, clientAt?, hclients]

/-- The places of a client are the same after a run. -/
theorem placesOf_run? {e e' : Engine} {as : List Action} {shown : List Event}
    (h : e.run? as = some (e', shown)) (c : ClientId) : e'.placesOf c = e.placesOf c := by
  ext i
  rw [mem_placesOf, mem_placesOf, clientAt?_run? h]

end Engine

end ClosedLoop
