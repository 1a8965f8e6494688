import ClosedLoop.Proofs.Engine.Clients

namespace ClosedLoop

/-!
# The costs that an instance draws

An instance draws the costs of its requests from a source of words of its own, which nothing else
touches. Its requests are therefore the same in every run with the same seed, whatever the calls
return, however the instances take turns and whenever the run is stopped.

* `Profile.costAt` — the sequence of the costs that a profile draws from a source;
* `Engine.costsOf` — the costs of the requests that one instance has issued in a run;
* `Profile.Drawn` — the requests of an instance are the beginning of its sequence, which every move
  preserves;
* `Engine.instancesFrom_getElem?` — the place and the seed of every instance;
* `Engine.draws_repeat` — **requests are reproducible**: in any two runs with one seed an instance
  issues the beginning of one and the same sequence of requests.
-/

namespace Profile

variable {σ : Type} [WordSource σ]

/-- The source after so many requests of a profile. -/
def wordsAfter (p : Profile) (words : σ) : Nat → σ
  | 0 => words
  | n + 1 => (p.drawCost (p.wordsAfter words n)).2

/-- The cost of each of the successive requests that a profile draws from a source. -/
def costAt (p : Profile) (words : σ) (n : Nat) : Cost := (p.drawCost (p.wordsAfter words n)).1

/-- These are the costs of the first requests that a profile draws from a source. -/
def Begins (p : Profile) (words : σ) (costs : List Cost) : Prop :=
  costs = (List.range costs.length).map (p.costAt words)

/-- Of two beginnings of one sequence the shorter one begins the longer one. -/
theorem Begins.comparable {p : Profile} {words : σ} {costs costs' : List Cost}
    (h : p.Begins words costs) (h' : p.Begins words costs') :
    costs <+: costs' ∨ costs' <+: costs := by
  have hlonger : ∀ {m n : Nat}, m ≤ n →
      (List.range m).map (p.costAt words) <+: (List.range n).map (p.costAt words) := by
    intro m n hmn
    obtain ⟨k, rfl⟩ := Nat.exists_eq_add_of_le hmn
    rw [List.range_add, List.map_append]
    exact List.prefix_append _ _
  rw [h, h']
  rcases Nat.le_total costs.length costs'.length with hle | hle
  · exact .inl (hlonger hle)
  · exact .inr (hlonger hle)

end Profile

/-! ### The requests of one instance -/

/-- The cost of the request that an event issues, if it issues one. -/
def Event.cost? : Event → Option Cost
  | .issued _ _ cost => some cost
  | _ => none

/-- The requests that some events tell of are the first ones that a profile has drawn from a source,
and `left` is what the source has become. -/
structure Profile.Drawn {σ : Type} [WordSource σ] (p : Profile) (words : σ) (events : List Event)
    (left : σ) : Prop where
  begins : p.Begins words (events.filterMap Event.cost?)
  source : left = p.wordsAfter words (events.filterMap Event.cost?).length

/-- A move draws the next cost of the sequence if it issues a request, and else nothing. -/
theorem Instance.Moves.drawn {i now : Nat} {inst next : Instance} {words : Xoshiro}
    {told new : List Event} (h : inst.Moves i now next new)
    (hdrawn : inst.profile.Drawn words told inst.words) :
    next.profile.Drawn words (told ++ new) next.words := by
  obtain ⟨hbegins, hwords⟩ := hdrawn
  cases h with
  -- The request that is issued has the cost that comes next.
  | @issues wake cost left waits due drawn =>
    have hcosts : (told ++ [Event.issued i now cost]).filterMap Event.cost? =
        told.filterMap Event.cost? ++ [cost] := List.filterMap_append
    rw [hwords] at drawn
    refine ⟨?_, ?_⟩
    · rw [hcosts, Profile.Begins, List.length_append, List.length_singleton, List.range_succ,
        List.map_append, ← hbegins, List.map_singleton, Profile.costAt, drawn]
    · rw [hcosts, List.length_append]
      show left = (inst.profile.drawCost _).2
      rw [drawn]
  | stays =>
    rw [List.append_nil]
    exact ⟨hbegins, hwords⟩
  -- All other moves issue nothing, and leave the source alone.
  | returns | records | crashes | abandons | ends =>
    have hcosts {event : Event} (hsilent : event.cost? = none) :
        (told ++ [event]).filterMap Event.cost? = told.filterMap Event.cost? := by
      rw [List.filterMap_append, List.filterMap_cons_none hsilent, List.filterMap_nil,
        List.append_nil]
    constructor <;> rw [hcosts rfl]
    · exact hbegins
    · exact hwords

namespace Engine

/-! ### Where an instance is -/

/-- The number of an instance among all instances: those of the profiles before its own come
first. -/
def placeOf (before : List Profile) (index : Nat) : Nat :=
  (before.map (·.instances.toNat)).sum + index

/-- Every instance stands at its place at the start, with a source of its own: the seed of the run
plus its place. -/
theorem instancesFrom_getElem? (seed : UInt64) (before : List Profile) (p : Profile)
    (after : List Profile) {index : Nat} (h : index < p.instances.toNat) :
    (instancesFrom seed (before ++ p :: after))[placeOf before index]? =
      some ⟨p, index, Xoshiro.ofSeed (seed + UInt64.ofNat (placeOf before index)), .fresh⟩ := by
  induction before generalizing seed with
  | nil =>
    rw [List.nil_append, instancesFrom, placeOf, List.map_nil, List.sum_nil, Nat.zero_add,
      List.getElem?_append_left (by simpa using h), List.getElem?_map, List.getElem?_range h]
    rfl
  -- The seeds of all later instances are moved on by the instances of the first profile.
  | cons q rest ih =>
    have hplace : placeOf (q :: rest) index = q.instances.toNat + placeOf rest index := by
      rw [placeOf, placeOf, List.map_cons, List.sum_cons, Nat.add_assoc]
    have hseed : seed + UInt64.ofNat (placeOf (q :: rest) index) =
        seed + q.instances + UInt64.ofNat (placeOf rest index) := by
      rw [hplace, UInt64.ofNat_add, UInt64.ofNat_toNat, UInt64.add_assoc]
    rw [hseed, ← ih (seed + q.instances), List.cons_append, instancesFrom, hplace,
      List.getElem?_append_right (by simp)]
    simp

/-- Profiles with distinct ids tell the instances apart by their clients and their numbers. -/
theorem nodup_instancesFrom {profiles : List Profile} (h : (profiles.map Profile.id).Nodup)
    (seed : UInt64) :
    ((instancesFrom seed profiles).map fun inst => (inst.client, inst.index)).Nodup := by
  induction profiles generalizing seed with
  | nil => exact List.nodup_nil
  | cons p rest ih =>
    rw [List.map_cons, List.nodup_cons] at h
    rw [instancesFrom, List.map_append, List.map_map]
    refine List.Nodup.append ?_ (ih h.2 _) ?_
    · refine List.Nodup.map ?_ List.nodup_range
      intro index index' hsame
      exact (Prod.mk.inj hsame).2
    · -- The instances behind belong to other profiles, and so to other clients.
      intro pair hown hother
      obtain ⟨index, -, rfl⟩ := List.mem_map.mp hown
      obtain ⟨inst, hinst, hpair⟩ := List.mem_map.mp hother
      have hid : inst.profile.id = p.id := (Prod.mk.inj hpair).1
      exact h.1 (hid ▸ List.mem_map_of_mem (profile_mem_of_instancesFrom hinst))

/-! ### Two runs -/

/-- Does the instance of a client with a number stand at this place? -/
def isAt (e : Engine) (client : ClientId) (index i : Nat) : Bool :=
  e.instances[i]?.any fun inst => inst.client = client && inst.index = index

/-- The costs of the requests that the instance of a client with a number has issued, in order. -/
def costsOf (e : Engine) (client : ClientId) (index : Nat) (events : List Event) : List Cost :=
  (events.filter fun event => event.instance?.any (e.isAt client index)).filterMap Event.cost?

variable {config : EngineConfig} {profiles before after : List Profile} {p : Profile} {index : Nat}
  {as : List Action} {e : Engine} {events : List Event}

/-- In a run of accepted profiles an instance is where it was at the start, and nowhere else. -/
theorem isAt_run? (accepted : Engine.check profiles = .ok ())
    (listed : profiles = before ++ p :: after) (counted : index < p.instances.toNat)
    (h : (start config profiles).run? as = some (e, events)) (i : Nat) :
    e.isAt p.id index i = true ↔ i = placeOf before index := by
  have hnodup := nodup_instancesFrom ((validateAll_ok_iff profiles).mp accepted).2 config.seed
  -- The clients and numbers of the instances are those at the start, where no two are the same.
  have hsame : e.instances.map (fun inst => (inst.client, inst.index)) =
      (instancesFrom config.seed profiles).map fun inst => (inst.client, inst.index) := by
    have hframe := congrArg (List.map fun place => (place.1.id, place.2)) (run?_frame h)
    rw [List.map_map, List.map_map] at hframe
    exact hframe
  rw [← hsame] at hnodup
  have hplace : (e.instances.map fun inst => (inst.client, inst.index))[placeOf before index]? =
      some (p.id, index) := by
    rw [hsame, List.getElem?_map, listed, instancesFrom_getElem? config.seed before p after counted]
    rfl
  have hat : e.isAt p.id index i = true ↔
      (e.instances.map fun inst => (inst.client, inst.index))[i]? = some (p.id, index) := by
    rw [isAt, List.getElem?_map]
    cases e.instances[i]? <;> simp
  rw [hat]
  constructor
  · intro hi
    have hlt := (List.getElem?_eq_some_iff.mp hi).1
    exact (List.getElem?_inj hlt hnodup).mp (hi.trans hplace.symm)
  · rintro rfl
    exact hplace

/-- The requests of an instance are the beginning of the sequence that its profile draws from its
seed. -/
theorem begins_costsOf (accepted : Engine.check profiles = .ok ())
    (listed : profiles = before ++ p :: after) (counted : index < p.instances.toNat)
    (h : (start config profiles).run? as = some (e, events)) :
    p.Begins (Xoshiro.ofSeed (config.seed + UInt64.ofNat (placeOf before index)))
      (e.costsOf p.id index events) := by
  have hfirst := instancesFrom_getElem? config.seed before p after counted
  rw [← listed] at hfirst
  obtain ⟨last, -, hprofile, hbegins, -⟩ := run?_instance (motive := fun inst told _ =>
    inst.profile = p ∧ p.Drawn
      (Xoshiro.ofSeed (config.seed + UInt64.ofNat (placeOf before index))) told inst.words)
    h hfirst ⟨rfl, rfl, rfl⟩ (by
      rintro inst next told new now later ⟨rfl, hdrawn⟩ move -
      have hnext := move.drawn hdrawn
      rw [move.frame.1] at hnext
      exact ⟨move.frame.1, hnext⟩)
  -- The events of the instance at its place are those that name its client and its number.
  have hown : e.costsOf p.id index events =
      (eventsOf (placeOf before index) events).filterMap Event.cost? := by
    rw [costsOf, eventsOf]
    congr 1
    refine List.filter_congr fun event _ => ?_
    rw [Bool.eq_iff_iff, decide_eq_true_iff]
    cases event.instance? with
    | none => simp
    | some i => simpa using isAt_run? accepted listed counted h i
  rw [hown]
  exact hbegins

/-- **Requests are reproducible.** In any two runs of accepted profiles with one seed, whatever the
    calls return, however the instances take turns and wherever the runs are stopped, each instance
    issues the first requests of one sequence: those that its profile draws from the seed of the run
    plus the number of instances before it. -/
theorem draws_repeat (accepted : Engine.check profiles = .ok ())
    (listed : profiles = before ++ p :: after) (counted : index < p.instances.toNat)
    (h : (start config profiles).run? as = some (e, events))
    {config' : EngineConfig} {as' : List Action} {e' : Engine} {events' : List Event}
    (seeded : config'.seed = config.seed)
    (h' : (start config' profiles).run? as' = some (e', events')) :
    let words := Xoshiro.ofSeed (config.seed + UInt64.ofNat (placeOf before index))
    let costs := e.costsOf p.id index events
    let costs' := e'.costsOf p.id index events'
    p.Begins words costs ∧ p.Begins words costs' ∧ (costs <+: costs' ∨ costs' <+: costs) := by
  intro words costs costs'
  have hbegins : p.Begins words costs := begins_costsOf accepted listed counted h
  have hbegins' : p.Begins words costs' := by
    have hother := begins_costsOf accepted listed counted h'
    rw [seeded] at hother
    exact hother
  exact ⟨hbegins, hbegins', hbegins.comparable hbegins'⟩

/-- Two instances without scatter, and two whose processing times scatter. -/
def scatteredPair : List Profile :=
  [{ Profile.blank 3 "a" with instances := 2 },
    { Profile.blank 4 "b" with instances := 2, rpcTime := 0.5, distribution := .uniform 0.5 }]

/-- The last instance is the only one that issues requests, and its first call goes well. -/
def aloneTwice : List Action :=
  [.issue 3, .advance 2000000, .reply 3 (.ok ⟨none⟩), .record 3, .issue 3, .stop true, .quit 3]

/-- The others issue requests before and after its first one, which never returns. -/
def crowdedOnce : List Action :=
  [.issue 0, .issue 2, .reply 2 (.error (EndpointError.timeout "")), .record 2, .issue 2, .issue 3,
    .issue 1, .advance 900000000, .reply 1 (.ok ⟨none⟩), .stop false]

/-- The shorter run begins with the requests of the longer one. -/
theorem draws_repeat_scatteredPair :
    ∃ e events e' events',
      (start (.standard 7) scatteredPair).run? aloneTwice = some (e, events) ∧
        (start ⟨Span.zero, 1, 7⟩ scatteredPair).run? crowdedOnce = some (e', events') ∧
          (e.costsOf 4 1 events).length = 2 ∧ (e'.costsOf 4 1 events').length = 1 ∧
            scatteredPair[1].Begins (Xoshiro.ofSeed 10) (e.costsOf 4 1 events) ∧
              e'.costsOf 4 1 events' <+: e.costsOf 4 1 events := by
  have accepted : Engine.check scatteredPair = .ok () := by
    rw [Engine.check, validateAll_ok_iff]
    refine ⟨fun p hp => ?_, by decide⟩
    rw [scatteredPair, List.mem_cons, List.mem_singleton] at hp
    rcases hp with rfl | rfl <;> rw [Profile.validate_ok_iff] <;> decide +kernel
  -- The two runs have different numbers of requests, and one seed.
  have halone : ((start (.standard 7) scatteredPair).run? aloneTwice).any
      fun result => (result.1.costsOf 4 1 result.2).length = 2 := by decide +kernel
  have hcrowded : ((start ⟨Span.zero, 1, 7⟩ scatteredPair).run? crowdedOnce).any
      fun result => (result.1.costsOf 4 1 result.2).length = 1 := by decide +kernel
  obtain ⟨⟨e, events⟩, h, htwo⟩ := (Option.any_eq_true ..).mp halone
  obtain ⟨⟨e', events'⟩, h', hone⟩ := (Option.any_eq_true ..).mp hcrowded
  have htwo' : (e.costsOf 4 1 events).length = 2 := of_decide_eq_true htwo
  have hone' : (e'.costsOf 4 1 events').length = 1 := of_decide_eq_true hone
  obtain ⟨hbegins, -, hshorter⟩ := draws_repeat accepted
    (show scatteredPair = [scatteredPair[0]] ++ scatteredPair[1] :: [] from rfl)
    (show 1 < scatteredPair[1].instances.toNat by decide) h
    (show (⟨Span.zero, 1, 7⟩ : EngineConfig).seed = (EngineConfig.standard 7).seed from rfl) h'
  refine ⟨e, events, e', events', h, h', htwo', hone', hbegins, ?_⟩
  rcases hshorter with hle | hle
  · -- Two requests are no beginning of one.
    have hlength : (e.costsOf 4 1 events).length ≤ (e'.costsOf 4 1 events').length := hle.length_le
    omega
  · exact hle

end Engine

end ClosedLoop
