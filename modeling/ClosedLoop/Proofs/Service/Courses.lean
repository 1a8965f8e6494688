import ClosedLoop.Endpoint.ResourceModel
import ClosedLoop.Proofs.Service.Moves
import ClosedLoop.Service.Arrivals

namespace ClosedLoop

/-!
# Fairness of the resource model

Requests arrive at any time and in any number, and the timers of their stages are noticed in any
order. Whatever happens, the pools of the resource model are kept within their capacities, and their
places are given without favour.

* `Course`, `Course.Reachable` — an endpoint with everything that it has shown so far, and the
  courses that it can take;
* `Course.Sound` — what holds in every course, from step to step;
* `Course.Fair`, `ResourceModel.fair` — **capacities are respected, nobody waits while a place is
  free or while holding another place, and every place goes to whoever asked first**;
* `Arrivals.reachable`, `Arrivals.fair_runWithin` — the run of a list of arrivals is such a course;
* `ResourceModel.fair_twoLookups`, `ResourceModel.fair_of_sound_twoReads` — two requests contend for
  the lock, and two others for a handler and a connection.
-/

namespace Call

/-- The pools that a call waits for or still has to pass. -/
def ahead (c : Call) : List Pool :=
  (match c.position with
    | .queued p _ => [p]
    | _ => []) ++ c.later.filterMap (·.pool)

/-- A pool that is waited for is still ahead. -/
theorem mem_ahead_of_waitsFor {c : Call} {p : Pool} (h : c.waitsFor p = true) : p ∈ c.ahead := by
  obtain ⟨holds, hpos⟩ := Traffic.position_of_waitsFor h
  rw [ahead, hpos]
  exact List.mem_append_left _ (List.mem_singleton.mpr rfl)

end Call

/-- The pools that an itinerary passes. -/
def Itinerary.pools (i : Itinerary) : List Pool := i.stages.filterMap (·.pool)

namespace Traffic

variable {t : Traffic} {now : Nat} {c d : Call}

/-- A placed call is the only new one, and passes the pools of its stages. -/
theorem mem_place {id : Nat} {reply : Option Reply} {stages : List Stage}
    (hd : d ∈ (t.place now id reply stages).1.calls) :
    d ∈ t.calls ∨ d.id = id ∧ d.ahead ⊆ stages.filterMap (·.pool) := by
  have happend (c : Call) (hd : d ∈ (t.append c).calls) : d ∈ t.calls ∨ d = c := by
    simpa [append] using hd
  -- Without a stage the call is answered, or awaits an answer that never comes.
  cases stages with
  | nil =>
    cases reply with
    | some r => exact .inl hd
    | none =>
      refine (happend _ hd).imp_right ?_
      rintro rfl
      exact ⟨rfl, List.Subset.refl _⟩
  | cons s behind =>
    rw [place] at hd
    cases hpool : s.pool with
    -- The first stage is entered, or its pool is waited for. It is among the pools of the stages.
    | none =>
      simp only [hpool] at hd
      refine (happend _ hd).imp_right ?_
      rintro rfl
      obtain ⟨wake, rest, henter⟩ := position_enter now none s.holds
      refine ⟨rfl, ?_⟩
      simp [Call.ahead, henter, hpool]
    | some p =>
      simp only [hpool] at hd
      by_cases hroom : t.inUse p < t.capacity p
      · rw [if_pos hroom] at hd
        refine (happend _ hd).imp_right ?_
        rintro rfl
        obtain ⟨wake, rest, henter⟩ := position_enter now (some p) s.holds
        refine ⟨rfl, ?_⟩
        simp [Call.ahead, henter, hpool]
      · rw [if_neg hroom] at hd
        refine (happend _ hd).imp_right ?_
        rintro rfl
        refine ⟨rfl, ?_⟩
        simp [Call.ahead, hpool]

/-- A call that is left belonged to the traffic. -/
theorem mem_of_mem_without {id : Nat} (hd : d ∈ (t.without id).calls) : d ∈ t.calls :=
  List.mem_of_mem_eraseP hd

/-- A released place brings no new call and no new pool. -/
theorem mem_release {pool : Option Pool} (hd : d ∈ (t.release now pool).1.calls) :
    ∃ e ∈ t.calls, d.id = e.id ∧ d.ahead ⊆ e.ahead := by
  cases pool with
  | none => exact ⟨d, hd, rfl, List.Subset.refl _⟩
  | some p =>
    rw [release, grant] at hd
    cases hfirst : t.calls.find? (·.waitsFor p) with
    | none =>
      simp only [hfirst] at hd
      exact ⟨d, hd, rfl, List.Subset.refl _⟩
    -- The first who waits gets the place, and has the same pools ahead.
    | some c =>
      obtain ⟨holds, hpos⟩ := position_of_waitsFor (by simpa using List.find?_some hfirst)
      simp only [hfirst, hpos, append, List.mem_append, List.mem_singleton] at hd
      rcases hd with hold | rfl
      · exact ⟨d, mem_of_mem_without hold, rfl, List.Subset.refl _⟩
      · obtain ⟨wake, rest, henter⟩ := position_enter now (some p) holds
        refine ⟨c, List.mem_of_find?_eq_some hfirst, rfl, ?_⟩
        simp [Call.ahead, henter]

/-- The next move of a call brings no new call and no new pool. -/
theorem mem_expire (hc : c ∈ t.calls) (hd : d ∈ (t.expire now c).1.calls) :
    ∃ e ∈ t.calls, d.id = e.id ∧ d.ahead ⊆ e.ahead := by
  rw [expire] at hd
  cases hpos : c.position with
  | queued q holds =>
    simp only [hpos] at hd
    exact ⟨d, hd, rfl, List.Subset.refl _⟩
  | unanswered =>
    simp only [hpos] at hd
    exact ⟨d, hd, rfl, List.Subset.refl _⟩
  | timed pool wake holds =>
    -- With time left the call stays in its stage. Otherwise it goes on to the next.
    cases holds with
    | cons first rest =>
      simp only [hpos, append, List.mem_append, List.mem_singleton] at hd
      rcases hd with hold | rfl
      · exact ⟨d, mem_of_mem_without hold, rfl, List.Subset.refl _⟩
      · exact ⟨c, hc, rfl, by simp [Call.ahead, hpos]⟩
    | nil =>
      simp only [hpos] at hd
      rcases mem_place hd with hfreed | ⟨hid, hpools⟩
      · obtain ⟨e, he, hid, hahead⟩ := mem_release hfreed
        exact ⟨e, mem_of_mem_without he, hid, hahead⟩
      · exact ⟨c, hc, hid, List.Subset.trans hpools (List.subset_append_right _ _)⟩

/-- A call that is put before its first stage does not change the capacities. -/
theorem capacity_place (t : Traffic) (now id : Nat) (reply : Option Reply) (stages : List Stage) :
    (t.place now id reply stages).1.capacity = t.capacity := by
  unfold place
  split
  · split <;> rfl
  · split
    · rfl
    · split <;> rfl

/-- The end of a timer does not, either. -/
theorem capacity_expire (t : Traffic) (now : Nat) (c : Call) :
    (t.expire now c).1.capacity = t.capacity := by
  have hrelease (t : Traffic) (pool : Option Pool) :
      (t.release now pool).1.capacity = t.capacity := by
    cases pool with
    | none => rfl
    | some p =>
      rw [release, grant]
      split
      · split <;> rfl
      · rfl
  unfold expire
  split
  · rfl
  · exact (capacity_place _ now c.id c.reply c.later).trans (hrelease (t.without c.id) _)
  · rfl

end Traffic

/-! ### Courses -/

/-- An endpoint with its clock, everything that it has shown so far, and the calls that have
arrived. -/
structure Course where
  now : Nat
  traffic : Traffic
  log : List (Nat × Passage)
  arrived : List Nat

namespace Course

/-- Nothing has happened. -/
def start (capacity : Pool → Nat) : Course := ⟨0, Traffic.idle capacity, [], []⟩

/-- The course after a move. -/
def moved (s : Course) (move : Traffic × List Passage) : Course :=
  { s with traffic := move.1, log := s.log ++ move.2.map fun e => (s.now, e) }

/-- The courses of an endpoint: time passes, new calls come with any itinerary that `Comes` allows,
and calls whose timer has fired move, in any order. -/
inductive Reachable (capacity : Pool → Nat) (Comes : Itinerary → Prop) : Course → Prop
  | start : Reachable capacity Comes (start capacity)
  | wait {s : Course} (h : Reachable capacity Comes s) {t : Nat} (ht : s.now ≤ t) :
    Reachable capacity Comes { s with now := t }
  | submit {s : Course} (h : Reachable capacity Comes s) {id : Nat} (hid : id ∉ s.arrived)
    {i : Itinerary} (hi : Comes i) :
    Reachable capacity Comes
      { s.moved (s.traffic.submit s.now id i) with arrived := id :: s.arrived }
  | expire {s : Course} (h : Reachable capacity Comes s) {c : Call} (hc : c ∈ s.traffic.calls)
    (hdue : c.isDue s.now = true) : Reachable capacity Comes (s.moved (s.traffic.expire s.now c))

/-- What holds in every course, if calls pass only pools with places. -/
structure Sound (capacity : Pool → Nat) (s : Course) : Prop where
  orderly : s.traffic.Orderly s.now s.log
  busy : ∀ p, s.traffic.Busy p
  places : s.traffic.capacity = capacity
  arrived : ∀ c ∈ s.traffic.calls, c.id ∈ s.arrived
  ahead : ∀ c ∈ s.traffic.calls, ∀ p ∈ c.ahead, 0 < capacity p

variable {capacity : Pool → Nat} {Comes : Itinerary → Prop} {s : Course}

/-- A new call keeps a course sound. -/
theorem Sound.submit (h : s.Sound capacity) {id : Nat} (hid : id ∉ s.arrived) {i : Itinerary}
    (hpools : ∀ p ∈ i.pools, 0 < capacity p) :
    Sound capacity { s.moved (s.traffic.submit s.now id i) with arrived := id :: s.arrived } := by
  -- Calls have arrived before they are in service, so the new one has an id of its own.
  have hfresh : id ∉ s.traffic.ids := by
    intro hmem
    obtain ⟨c, hc, rfl⟩ := List.mem_map.mp hmem
    exact hid (h.arrived c hc)
  obtain ⟨horderly, hbusy⟩ := h.orderly.submit h.busy hfresh i
  exact {
    orderly := horderly
    busy := hbusy
    places := (Traffic.capacity_place _ _ _ _ _).trans h.places
    arrived := fun c hc => by
      rcases Traffic.mem_place hc with hold | ⟨hnew, -⟩
      · exact List.mem_cons_of_mem _ (h.arrived c hold)
      · rw [hnew]
        exact List.mem_cons_self
    ahead := fun c hc p hp => by
      rcases Traffic.mem_place hc with hold | ⟨-, hpassed⟩
      · exact h.ahead c hold p hp
      · exact hpools p (hpassed hp) }

/-- The next move of a call keeps a course sound. -/
theorem Sound.expire (h : s.Sound capacity) {c : Call} (hc : c ∈ s.traffic.calls) :
    Sound capacity (s.moved (s.traffic.expire s.now c)) := by
  obtain ⟨horderly, hbusy⟩ := h.orderly.expire h.busy hc
  exact {
    orderly := horderly
    busy := hbusy
    places := (Traffic.capacity_expire _ _ _).trans h.places
    arrived := fun d hd => by
      obtain ⟨e, he, hid, -⟩ := Traffic.mem_expire hc hd
      rw [hid]
      exact h.arrived e he
    ahead := fun d hd p hp => by
      obtain ⟨e, he, -, hahead⟩ := Traffic.mem_expire hc hd
      exact h.ahead e he p (hahead hp) }

/-- Every course is sound. -/
theorem Reachable.sound (hpools : ∀ i, Comes i → ∀ p ∈ i.pools, 0 < capacity p)
    (h : Reachable capacity Comes s) : s.Sound capacity := by
  induction h with
  | start =>
    exact {
      orderly := Traffic.orderly_idle capacity 0
      busy := Traffic.busy_idle capacity
      places := rfl
      arrived := fun c hc => absurd hc List.not_mem_nil
      ahead := fun c hc => absurd hc List.not_mem_nil }
  | wait _ ht ih => exact { ih with orderly := ih.orderly.later ht }
  | submit _ hid hi ih => exact ih.submit hid (hpools _ hi)
  | expire _ hc _ ih => exact ih.expire hc

end Course

/-! ### The resource model -/

namespace ResourceModel

/-- The itineraries of requests: any cost, and any data node for the remote read. -/
def Serves (m : ResourceModel) (i : Itinerary) : Prop :=
  ∃ cost node, node < m.config.dataNodes ∧ i = m.itinerary cost node

/-- A request passes the lock, the handlers and one data node at most. -/
theorem pools_itinerary (m : ResourceModel) (cost : Cost) (node : Nat) :
    (m.itinerary cost node).pools ⊆ [.namespaceLock, .handlers, .xceivers node] := by
  intro p hp
  simp only [Itinerary.pools, itinerary, stages, List.filterMap_append, List.mem_append] at hp
  rcases hp with (((hp | hp) | hp) | hp) | hp
  · split at hp <;> simp_all
  · simp_all
  · split at hp <;> simp_all
  · split at hp <;> simp_all
  · simp_all

/-- A model is built only with its capacities as they are, and none of them zero. -/
theorem config_of_build {config : ResourceConfig} {m : ResourceModel}
    (hbuild : build config = .ok m) :
    m.config = config ∧ 0 < config.rpcHandlers ∧ 0 < config.dataNodes ∧ 0 < config.xceivers := by
  -- With a capacity of zero the check fails.
  have hnonzero : ¬(config.rpcHandlers = 0 ∨ config.dataNodes = 0 ∨ config.xceivers = 0) := by
    intro hzero
    rw [build, check, if_pos hzero] at hbuild
    cases hbuild
  have hconfig : m.config = config := by
    rw [build] at hbuild
    cases hcheck : check config with
    | error cause => rw [hcheck] at hbuild; cases hbuild
    | ok _ =>
      cases hroom : checkRoom config with
      | error fault => rw [hcheck, hroom] at hbuild; cases hbuild
      | ok _ => rw [hcheck, hroom] at hbuild; cases hbuild; rfl
  exact ⟨hconfig, by omega, by omega, by omega⟩

/-- The pools of a model that was built have places. -/
theorem capacity_pos {config : ResourceConfig} {m : ResourceModel} (hbuild : build config = .ok m)
    {i : Itinerary} (hi : m.Serves i) : ∀ p ∈ i.pools, 0 < m.capacity p := by
  obtain ⟨hconfig, hhandlers, -, hxceivers⟩ := config_of_build hbuild
  obtain ⟨cost, node, hnode, rfl⟩ := hi
  intro p hp
  have hpool := m.pools_itinerary cost node hp
  simp only [List.mem_cons, List.not_mem_nil, or_false] at hpool
  rcases hpool with rfl | rfl | rfl
  · exact Nat.one_pos
  · rw [capacity, hconfig]
    exact hhandlers
  · rw [capacity, if_pos hnode, hconfig]
    exact hxceivers

end ResourceModel

/-- The pools of a resource model are used fairly, now and in all that has happened so far. -/
structure Course.Fair (config : ResourceConfig) (m : ResourceModel) (s : Course) : Prop where
  lookups : s.traffic.inUse .namespaceLock ≤ 1
  handlers : s.traffic.inUse .handlers ≤ config.rpcHandlers
  xceivers : ∀ node, s.traffic.inUse (.xceivers node) ≤ config.xceivers
  /-- A call waits for a pool only while all its places are taken. -/
  noNeedlessWait : ∀ c ∈ s.traffic.calls, ∀ p, c.waitsFor p = true →
    0 < m.capacity p ∧ s.traffic.inUse p = m.capacity p
  /-- The places of a pool went to those who asked first, in their order; the others wait. -/
  firstCome : ∀ p : Pool, (p.history s.log).asked =
    (p.history s.log).stays.map Stay.call ++ s.traffic.queue p
  /-- Those inside a stage are those who have entered and not left it. -/
  inside : ∀ p : Pool, ∀ id, (∃ u ∈ (p.history s.log).stays, u.call = id ∧ u.left = none) ↔
    ∃ c ∈ s.traffic.calls, c.occupies p = true ∧ c.id = id
  /-- A call that waits has left every stage that it has entered before. -/
  holdsNothing : ∀ c ∈ s.traffic.calls, ∀ p, c.waitsFor p = true →
    ∀ q : Pool, ∀ u ∈ (q.history s.log).stays, u.call = c.id → u.left ≠ none
  /-- The look-ups do not overlap. -/
  lookupsApart : (Pool.namespaceLock.history s.log).stays.Pairwise Stay.Before

namespace ResourceModel

variable {config : ResourceConfig} {m : ResourceModel} {s : Course}

/-- A sound course is a fair one. -/
theorem fair_of_sound (hbuild : build config = .ok m) (hsound : s.Sound m.capacity) :
    s.Fair config m := by
  obtain ⟨hconfig, -, -, -⟩ := config_of_build hbuild
  have hfits (p : Pool) : (p.history s.log).Fits (s.traffic.queue p) (s.traffic.holders p)
      (m.capacity p) s.now := by
    rw [← hsound.places]
    exact hsound.orderly.pools p
  have hwithin (p : Pool) : s.traffic.inUse p ≤ m.capacity p := by
    rw [Traffic.inUse_eq]
    exact (hfits p).within
  have hinside (p : Pool) (id : Nat) :
      (∃ u ∈ (p.history s.log).stays, u.call = id ∧ u.left = none) ↔
        ∃ c ∈ s.traffic.calls, c.occupies p = true ∧ c.id = id := by
    rw [(hfits p).inside id]
    exact Traffic.mem_idsOf
  exact {
    lookups := hwithin .namespaceLock
    handlers := by
      rw [← hconfig]
      exact hwithin .handlers
    xceivers := fun node => by
      have hnode := hwithin (.xceivers node)
      rw [capacity, hconfig] at hnode
      split at hnode <;> omega
    noNeedlessWait := fun c hc p hwaits => by
      have hqueue : c.id ∈ s.traffic.queue p := Traffic.mem_idsOf.mpr ⟨c, hc, hwaits, rfl⟩
      have hfull := hsound.busy p (List.ne_nil_of_mem hqueue)
      refine ⟨hsound.ahead c hc p (Call.mem_ahead_of_waitsFor hwaits), ?_⟩
      rw [Traffic.inUse_eq, hfull, hsound.places]
    firstCome := fun p => (hfits p).order
    inside := hinside
    holdsNothing := fun c hc p hwaits q u hu hcall hopen => by
      -- a call that is inside some stage is the waiting one, which is nowhere inside
      obtain ⟨d, hd, hoccupies, hid⟩ := (hinside q c.id).mp ⟨u, hu, hcall, hopen⟩
      obtain rfl : d = c := Traffic.eq_of_id hsound.orderly.distinct hd hc hid
      obtain ⟨holds, hpos⟩ := Traffic.position_of_waitsFor hwaits
      rw [Traffic.occupies_of_queued hpos] at hoccupies
      cases hoccupies
    lookupsApart := (hfits .namespaceLock).apart (Nat.le_refl 1) }

/-- **The pools of the resource model are used fairly in every course**, for any requests at any
times with any data nodes, and in whatever order the timers are noticed. -/
theorem fair (hbuild : build config = .ok m) (hs : Course.Reachable m.capacity m.Serves s) :
    s.Fair config m :=
  fair_of_sound hbuild (hs.sound fun _ hi => capacity_pos hbuild hi)

end ResourceModel

/-! ### Calls that arrive at given instants -/

namespace Arrivals

variable {capacity : Pool → Nat} {Comes : Itinerary → Prop} {limit : Nat}

/-- What has happened to a list of arrivals, as a course. -/
def course (s : Arrivals) (arrived : List Nat) : Course :=
  ⟨s.now, s.traffic, s.log.reverse, arrived⟩

/-- The calls that are still to arrive are new and have itineraries that may come. -/
structure Expects (Comes : Itinerary → Prop) (pending : List Arrival) (arrived : List Nat) :
    Prop where
  comes : ∀ a ∈ pending, Comes a.itinerary
  distinct : (pending.map Arrival.id).Nodup
  fresh : ∀ a ∈ pending, a.id ∉ arrived

/-- The course of moved arrivals. -/
theorem course_moved (s : Arrivals) (move : Traffic × List Passage) (arrived : List Nat) :
    (s.moved move).course arrived = (s.course arrived).moved move := by
  simp [moved, course, Course.moved]

/-- The next thing that happens to arrivals is a step of a course. -/
theorem reachable_step {s s' : Arrivals} {arrived : List Nat}
    (h : Course.Reachable capacity Comes (s.course arrived))
    (hpending : Expects Comes s.pending arrived) (hstep : s.step? limit = some s') :
    ∃ arrived', Course.Reachable capacity Comes (s'.course arrived') ∧
      Expects Comes s'.pending arrived' := by
  -- Where nothing is due the clock goes on, and nothing else happens.
  have hadvance {t : Nat} (hs' : s' = { s with now := max s.now t }) :
      Course.Reachable capacity Comes (s'.course arrived) ∧ Expects Comes s'.pending arrived := by
    subst hs'
    exact ⟨h.wait (Nat.le_max_left _ _), hpending⟩
  unfold step? at hstep
  cases hdue : s.traffic.due? s.now with
  | some c =>
    -- The timer of a call fires first.
    simp only [hdue, Option.some.injEq] at hstep
    subst hstep
    refine ⟨arrived, ?_, hpending⟩
    rw [course_moved]
    have hfired : c.isDue s.now = true := by simpa using List.find?_some hdue
    exact h.expire (List.mem_of_find?_eq_some hdue) hfired
  | none =>
    cases hlist : s.pending with
    | nil =>
      simp only [hdue, hlist] at hstep
      split at hstep
      · split at hstep
        · exact ⟨arrived, hadvance (by rw [hlist]; exact (Option.some.inj hstep).symm)⟩
        · cases hstep
      · cases hstep
    | cons a rest =>
      simp only [hdue, hlist] at hstep
      by_cases harrives : a.instant ≤ s.now
      · rw [if_pos harrives, Option.some.injEq] at hstep
        -- Then whoever is to arrive by now arrives, once.
        subst hstep
        rw [hlist] at hpending
        obtain ⟨hcomes, hdistinct, hfresh⟩ := hpending
        obtain ⟨hnew, hrest⟩ := List.nodup_cons.mp hdistinct
        refine ⟨a.id :: arrived, ?_, ?_⟩
        · have hsubmit := h.submit (hfresh a List.mem_cons_self) (hcomes a List.mem_cons_self)
          rw [← course_moved] at hsubmit
          exact hsubmit
        · refine ⟨fun b hb => hcomes b (List.mem_cons_of_mem a hb), hrest, fun b hb hmem => ?_⟩
          rcases List.mem_cons.mp hmem with hsame | hold
          · exact hnew (hsame ▸ List.mem_map_of_mem hb)
          · exact hfresh b (List.mem_cons_of_mem a hb) hold
      · rw [if_neg harrives] at hstep
        split at hstep
        · split at hstep
          · exact ⟨arrived, hadvance (by rw [hlist]; exact (Option.some.inj hstep).symm)⟩
          · cases hstep
        · cases hstep

/-- Whatever happens to arrivals is a course of the endpoint. -/
theorem reachable_runWithin {s : Arrivals} {arrived : List Nat}
    (h : Course.Reachable capacity Comes (s.course arrived))
    (hpending : Expects Comes s.pending arrived) (fuel : Nat) :
    ∃ arrived', Course.Reachable capacity Comes ((runWithin limit fuel s).course arrived') := by
  induction fuel generalizing s arrived with
  | zero => exact ⟨arrived, h⟩
  | succ fuel ih =>
    rw [runWithin]
    cases hstep : s.step? limit with
    | none => exact ⟨arrived, h⟩
    | some next =>
      obtain ⟨arrived', hnext, hlater⟩ := reachable_step h hpending hstep
      exact ih hnext hlater

/-- The run of a list of arrivals is a course of the endpoint at every instant. -/
theorem reachable (capacity : Pool → Nat) (arrivals : List Arrival)
    (hids : (arrivals.map Arrival.id).Nodup) (hcomes : ∀ a ∈ arrivals, Comes a.itinerary)
    (limit fuel : Nat) : ∃ arrived, Course.Reachable capacity Comes
      ((runWithin limit fuel (start capacity arrivals)).course arrived) := by
  have hperm := List.mergeSort_perm arrivals fun a b => decide (a.instant ≤ b.instant)
  have hstart : Course.Reachable capacity Comes ((start capacity arrivals).course []) :=
    Course.Reachable.start
  refine reachable_runWithin hstart ⟨?_, ?_, ?_⟩ fuel
  · exact fun a ha => hcomes a (hperm.mem_iff.mp ha)
  · exact (hperm.map Arrival.id).nodup_iff.mpr hids
  · exact fun a _ => List.not_mem_nil

/-- The run of a list of requests to a resource model is fair at every instant. -/
theorem fair_runWithin {config : ResourceConfig} {m : ResourceModel}
    (hbuild : ResourceModel.build config = .ok m) (arrivals : List Arrival)
    (hids : (arrivals.map Arrival.id).Nodup) (hserves : ∀ a ∈ arrivals, m.Serves a.itinerary)
    (limit fuel : Nat) :
    ∃ arrived, ((runWithin limit fuel (start m.capacity arrivals)).course arrived).Fair
      config m := by
  obtain ⟨arrived, hreachable⟩ := reachable m.capacity arrivals hids hserves limit fuel
  have hsound := hreachable.sound fun _ hi => ResourceModel.capacity_pos hbuild hi
  exact ⟨arrived, ResourceModel.fair_of_sound hbuild hsound⟩

end Arrivals

namespace ResourceModel

/-- Two requests that look up names for a tenth of a second, both at once. -/
def twoLookups : List Arrival :=
  let cost : Cost := { Cost.none with lookupTime := 0.1 }
  let itinerary := itinerary ⟨ResourceConfig.standard⟩ cost 0
  [⟨0, 1, itinerary⟩, ⟨0, 2, itinerary⟩]

/-- The second look-up waits for the lock until the first one has left it. -/
theorem fair_twoLookups :
    ∃ s : Course, Course.Reachable (capacity ⟨ResourceConfig.standard⟩)
        (Serves ⟨ResourceConfig.standard⟩) s ∧
      s.Fair ResourceConfig.standard ⟨ResourceConfig.standard⟩ ∧
      (Pool.namespaceLock.history s.log).asked = [1, 2] ∧
      (Pool.namespaceLock.history s.log).stays.map (fun u => (u.call, u.entered, u.left)) =
        [(1, 0, some 100000000), (2, 100000000, some 200000000)] := by
  have hbuild : build ResourceConfig.standard = .ok ⟨ResourceConfig.standard⟩ := rfl
  have hserves : ∀ a ∈ twoLookups, Serves ⟨ResourceConfig.standard⟩ a.itinerary := by
    intro a ha
    simp only [twoLookups, List.mem_cons, List.not_mem_nil, or_false] at ha
    rcases ha with rfl | rfl <;> exact ⟨_, 0, by decide, rfl⟩
  let first : Arrivals :=
    ⟨0, twoLookups, Traffic.idle (capacity ⟨ResourceConfig.standard⟩), []⟩
  let final := Arrivals.runWithin 200000000 40 first
  -- What the log says of the lock, by running the two look-ups to their end.
  have hasked : (Pool.namespaceLock.history final.log.reverse).asked = [1, 2] := by
    decide +kernel
  have hstays : (Pool.namespaceLock.history final.log.reverse).stays.map
      (fun u => (u.call, u.entered, u.left)) =
        [(1, 0, some 100000000), (2, 100000000, some 200000000)] := by decide +kernel
  have hexpects : Arrivals.Expects (Serves ⟨ResourceConfig.standard⟩) first.pending [] :=
    ⟨hserves, by decide, fun _ _ => List.not_mem_nil⟩
  obtain ⟨arrived, hreachable⟩ :=
    Arrivals.reachable_runWithin Course.Reachable.start hexpects 40
  exact ⟨final.course arrived, hreachable, fair hbuild hreachable, hasked, hstays⟩

/-- A server with one handler and one connection to its only data node. -/
def narrow : ResourceConfig :=
  { ResourceConfig.standard with rpcHandlers := 1, dataNodes := 1, xceivers := 1 }

/-- Two requests that compute, write to the log and read remotely, both at once. -/
def twoReads : List Arrival :=
  let cost : Cost := { Cost.none with cpuTime := 0.2, logWrite := 15, remoteRead := 100 }
  let itinerary := itinerary ⟨narrow⟩ cost 0
  [⟨0, 1, itinerary⟩, ⟨0, 2, itinerary⟩]

/-- The second one waits for the handler until the first one has been processed and has written, and
for the connection until the first one has read. -/
theorem fair_of_sound_twoReads :
    ∃ s : Course, Course.Reachable (capacity ⟨narrow⟩) (Serves ⟨narrow⟩) s ∧
      s.Fair narrow ⟨narrow⟩ ∧
      (Pool.handlers.history s.log).asked = [1, 2] ∧
      (Pool.handlers.history s.log).stays.map (fun u => (u.call, u.entered, u.left)) =
        [(1, 0, some 301000000), (2, 301000000, some 602000000)] ∧
      ((Pool.xceivers 0).history s.log).asked = [1, 2] ∧
      ((Pool.xceivers 0).history s.log).stays.map (fun u => (u.call, u.entered, u.left)) =
        [(1, 301000000, some 882000000), (2, 882000000, some 1463000000)] := by
  have hbuild : build narrow = .ok ⟨narrow⟩ := rfl
  have hserves : ∀ a ∈ twoReads, Serves ⟨narrow⟩ a.itinerary := by
    intro a ha
    simp only [twoReads, List.mem_cons, List.not_mem_nil, or_false] at ha
    rcases ha with rfl | rfl <;> exact ⟨_, 0, by decide, rfl⟩
  let first : Arrivals := ⟨0, twoReads, Traffic.idle (capacity ⟨narrow⟩), []⟩
  let final := Arrivals.runWithin 1463000000 40 first
  -- What the log says of the handler and of the connection.
  have hhandlers : (Pool.handlers.history final.log.reverse).asked = [1, 2] ∧
      (Pool.handlers.history final.log.reverse).stays.map (fun u => (u.call, u.entered, u.left)) =
        [(1, 0, some 301000000), (2, 301000000, some 602000000)] := by decide +kernel
  have hxceivers : ((Pool.xceivers 0).history final.log.reverse).asked = [1, 2] ∧
      ((Pool.xceivers 0).history final.log.reverse).stays.map
        (fun u => (u.call, u.entered, u.left)) =
          [(1, 301000000, some 882000000), (2, 882000000, some 1463000000)] := by decide +kernel
  have hexpects : Arrivals.Expects (Serves ⟨narrow⟩) first.pending [] :=
    ⟨hserves, by decide, fun _ _ => List.not_mem_nil⟩
  obtain ⟨arrived, hreachable⟩ :=
    Arrivals.reachable_runWithin Course.Reachable.start hexpects 40
  have hsound := hreachable.sound fun _ hi => capacity_pos hbuild hi
  exact ⟨final.course arrived, hreachable, fair_of_sound hbuild hsound, hhandlers.1, hhandlers.2,
    hxceivers.1, hxceivers.2⟩

end ResourceModel

end ClosedLoop
