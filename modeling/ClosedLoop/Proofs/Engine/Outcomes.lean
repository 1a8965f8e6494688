import ClosedLoop.Proofs.Engine.Ending
import ClosedLoop.Proofs.Engine.Rounds

namespace ClosedLoop

/-!
# What becomes of requests

* `Instance.Settles` — what the events tell of the requests of an instance: each that returned was
  recorded or is about to be, at most one was abandoned or lost its record, and together they took
  no longer than the run;
* `Instance.Moves.settlement`, `Engine.run?_settles` — every move and every run keep that;
* `Engine.returned_of_isQuiet`, `Engine.inFlight_of_isQuiet` — the requests of a client once
  everything has ended;
* `Engine.sum_onRecord`, `Engine.countP_isLoss` — the records of a client in the journal.
-/

namespace Event

/-- How a request that returned is counted. -/
def outcome? : Event → Option Outcome
  | .returned _ _ reply => some reply.outcome
  | _ => none

/-- The tally of a request that returned. -/
def returnedTally (event : Event) : Tally := Tally.of event.outcome?.toList

/-- What a record that was handed over amounts to. -/
def onRecord {M : Type} [Zero M] (f : Record → M) : Event → M
  | .recorded _ record _ => f record
  | _ => 0

/-- Was a record lost because it could not be counted? -/
def isLoss : Event → Bool
  | .recorded _ _ (.error _) => true
  | _ => false

end Event

/-- How the requests that returned are counted. -/
def outcomesOf (events : List Event) : List Outcome := events.filterMap Event.outcome?

/-- The tally of one record. -/
def Record.tally (r : Record) : Tally := Tally.of [r.outcome]

/-- The tally of the record that is still to be handed over. -/
def Phase.pending : Phase → Tally
  | .recording record => record.tally
  | _ => 0

/-- The requests before the present one took no longer than `total`, and it was not issued earlier
    than that. -/
def Phase.Spent (total now : Nat) : Phase → Prop
  | .awaiting t _ => total ≤ t ∧ t ≤ now
  | .recording record => ∃ t c, total ≤ t ∧ t ≤ now ∧ c ≤ now ∧
      record.issued = Clock.reading t ∧ record.completed = Clock.reading c
  | _ => total ≤ now

/-- The requests that returned add up to their tally. -/
theorem sum_returnedTally (events : List Event) :
    (events.map Event.returnedTally).sum = Tally.of (outcomesOf events) := by
  induction events with
  | nil => rfl
  | cons event rest ih =>
    have hsplit : outcomesOf (event :: rest) = event.outcome?.toList ++ outcomesOf rest := by
      rw [outcomesOf, List.filterMap_cons]
      cases event.outcome? <;> rfl
    rw [List.map_cons, List.sum_cons, ih, hsplit, Tally.of_append]
    rfl

/-- There is an outcome for every return. -/
theorem length_outcomesOf (events : List Event) :
    (outcomesOf events).length = events.countP Event.isReturn := by
  rw [outcomesOf, List.length_filterMap_eq_countP]
  refine List.countP_congr fun event _ => ?_
  cases event <;> simp [Event.outcome?, Event.isReturn]

/-- Records add up to their tally. -/
theorem tallyOf_eq_sum (records : List Record) :
    tallyOf records = (records.map Record.tally).sum := by
  induction records with
  | nil => rfl
  | cons r rest ih =>
    have hsplit : tallyOf (r :: rest) = tallyOf [r] + tallyOf rest := tallyOf_append [r] rest
    rw [hsplit, ih]
    rfl

namespace Phase

/-- Whoever waits for a timer has nothing pending. -/
theorem pending_of_wake? {phase : Phase} {wake : Nat} (h : phase.wake? = some wake) :
    phase.pending = 0 := by
  cases phase with
  | recording record => cases h
  | _ => rfl

/-- The time spent has passed. -/
theorem Spent.le {phase : Phase} {total now : Nat} (h : phase.Spent total now) : total ≤ now := by
  cases phase with
  | awaiting t cost => exact Nat.le_trans h.1 h.2
  | recording record =>
    obtain ⟨t, c, htotal, ht, -⟩ := h
    exact Nat.le_trans htotal ht
  | _ => exact h

/-- Time that was spent stays spent. -/
theorem Spent.later {phase : Phase} {total now later : Nat} (h : phase.Spent total now)
    (passed : now ≤ later) : phase.Spent total later := by
  cases phase with
  | awaiting t cost => exact ⟨h.1, Nat.le_trans h.2 passed⟩
  | recording record =>
    obtain ⟨t, c, htotal, ht, hc, hstamps⟩ := h
    exact ⟨t, c, htotal, Nat.le_trans ht passed, Nat.le_trans hc passed, hstamps⟩
  | _ => exact Nat.le_trans h passed

/-- Handing over a record ends a round. -/
theorem Spent.completed {record : Record} {total now : Nat}
    (h : (recording record).Spent total now) :
    total + (record.completedBy (Clock.reading now)).latency.nanos ≤ now := by
  obtain ⟨t, c, htotal, ht, hc, hissued, hcompleted⟩ := h
  have hlatency : (record.completedBy (Clock.reading now)).latency.nanos ≤ now - t :=
    latency_le_of_stamps hc hissued (by rw [Record.completedBy, hcompleted])
  omega

end Phase

namespace Instance

/-- What the events tell of the requests of an instance. -/
structure Settles (inst : Instance) (told : List Event) (now : Nat) : Prop where
  returned : (told.map Event.returnedTally).sum =
    (told.map (Event.onRecord Record.tally)).sum + inst.phase.pending
  spent : inst.phase.Spent (told.map (Event.onRecord (·.latency.nanos))).sum now
  broken : told.countP Event.isAbandon + told.countP Event.isLoss ≤
    if inst.phase.isEnded then 1 else 0
  holds : ∀ record, inst.phase = .recording record → record.client = inst.client
  records : ∀ i record result, .recorded i record result ∈ told → record.client = inst.client

section Moves

variable {i now later : Nat} {inst next : Instance} {told new : List Event}

/-- Every request that returned is recorded or about to be. -/
private theorem Moves.returned (move : inst.Moves i now next new)
    (h : (told.map Event.returnedTally).sum =
      (told.map (Event.onRecord Record.tally)).sum + inst.phase.pending) :
    ((told ++ new).map Event.returnedTally).sum =
      ((told ++ new).map (Event.onRecord Record.tally)).sum + next.phase.pending := by
  rw [List.map_append, List.map_append, List.sum_append, List.sum_append, h]
  -- A reply adds to what is pending, and its record takes that away again.
  cases move with
  | stays => simp
  | issues waits due drawn =>
    rw [Phase.pending_of_wake? waits]
    simp [Event.returnedTally, Event.outcome?, Event.onRecord, Phase.pending]
  | returns awaits =>
    simp [Event.returnedTally, Event.outcome?, Event.onRecord, Phase.pending, awaits, recordOf,
      Record.tally]
  | records holds | crashes holds =>
    simp [Event.returnedTally, Event.outcome?, Event.onRecord, Phase.pending, holds, Record.tally,
      Record.completedBy, crash]
  | abandons awaits =>
    simp [Event.returnedTally, Event.outcome?, Event.onRecord, Phase.pending, awaits]
  | ends rests =>
    simp [Event.returnedTally, Event.outcome?, Event.onRecord, Phase.pending, rests]

/-- The requests of an instance take no longer than the run. -/
private theorem Moves.spent (move : inst.Moves i now next new) (passed : now ≤ later)
    (h : inst.phase.Spent (told.map (Event.onRecord (·.latency.nanos))).sum now) :
    next.phase.Spent ((told ++ new).map (Event.onRecord (·.latency.nanos))).sum later := by
  rw [List.map_append, List.sum_append]
  generalize (told.map (Event.onRecord (·.latency.nanos))).sum = total at h ⊢
  cases move with
  | stays => exact h.later passed
  -- The next request is issued now, after all the others.
  | issues waits due drawn => exact ⟨h.le, passed⟩
  | returns awaits =>
    rw [awaits] at h
    exact ⟨_, now, h.1, Nat.le_trans h.2 passed, passed, rfl, rfl⟩
  | records holds | crashes holds =>
    rw [holds] at h
    exact Nat.le_trans h.completed passed
  | abandons awaits =>
    exact Nat.le_trans h.le passed
  | ends rests => exact Nat.le_trans h.le passed

/-- An instance that abandons a request or loses a record has ended. -/
private theorem Moves.broken (move : inst.Moves i now next new)
    (h : told.countP Event.isAbandon + told.countP Event.isLoss ≤
      if inst.phase.isEnded then 1 else 0) :
    (told ++ new).countP Event.isAbandon + (told ++ new).countP Event.isLoss ≤
      if next.phase.isEnded then 1 else 0 := by
  -- Nothing is abandoned or lost before the move with which the instance ends.
  by_cases hended : inst.phase.isEnded
  · obtain ⟨rfl, rfl⟩ := move.eq_of_isEnded hended
    rw [List.append_nil]
    exact h
  · rw [if_neg hended] at h
    have habandon : told.countP Event.isAbandon = 0 := by omega
    have hloss : told.countP Event.isLoss = 0 := by omega
    rw [List.countP_append, List.countP_append, habandon, hloss]
    cases move with
    | stays => simp
    | _ => simp [Event.isAbandon, Event.isLoss, Phase.isEnded, crash]

/-- Records are those of the client of the instance. -/
private theorem Moves.holds (move : inst.Moves i now next new)
    (h : ∀ record, inst.phase = .recording record → record.client = inst.client) :
    (∀ record, next.phase = .recording record → record.client = next.client) ∧
      ∀ j record result, .recorded j record result ∈ new → record.client = inst.client := by
  -- A record is made of the call when it returns, and held until it is handed over.
  cases move with
  | stays => exact ⟨h, fun _ _ _ hmem => (by cases hmem)⟩
  | returns awaits =>
    refine ⟨fun record holds => ?_, fun _ _ _ hmem => by simp at hmem⟩
    cases holds
    rfl
  | @records held _ holds | @crashes held _ holds =>
    refine ⟨fun _ other => (by cases other), fun j record result hmem => ?_⟩
    cases List.mem_singleton.mp hmem
    exact h held holds
  | issues | abandons | ends =>
    exact ⟨fun _ other => (by cases other), fun _ _ _ hmem => (by simp at hmem)⟩

/-- Every move keeps what is told of the requests. -/
theorem Moves.settlement (move : inst.Moves i now next new) (passed : now ≤ later)
    (h : inst.Settles told now) : next.Settles (told ++ new) later := by
  obtain ⟨hholds, hrecords⟩ := move.holds h.holds
  have hclient : next.client = inst.client := congrArg Profile.id move.frame.1
  refine ⟨move.returned h.returned, move.spent passed h.spent, move.broken h.broken, hholds, ?_⟩
  intro j record result hmem
  rw [hclient]
  rcases List.mem_append.mp hmem with hmem | hmem
  · exact h.records j record result hmem
  · exact hrecords j record result hmem

end Moves

end Instance

namespace Engine

section Runs

variable {config : EngineConfig} {profiles : List Profile} {as : List Action} {e : Engine}
  {events : List Event}

/-- What every run tells of the requests of an instance. -/
theorem run?_settles (h : (start config profiles).run? as = some (e, events)) {i : Nat}
    {inst : Instance} (found : e.instances[i]? = some inst) :
    inst.Settles (eventsOf i events) e.now := by
  refine run?_instance_of_start (motive := Instance.Settles) h found (fun first hfresh => ?_)
    fun hsettles move passed => move.settlement passed hsettles
  refine ⟨?_, ?_, ?_, fun record holds => ?_, fun _ _ _ hmem => by cases hmem⟩
  · rw [hfresh]; rfl
  · rw [hfresh]; exact Nat.zero_le _
  · exact Nat.zero_le _
  · rw [hfresh] at holds; cases holds

/-- The places of a client have instances of the client. -/
theorem exists_of_mem_placesOf {c : ClientId} {i : Nat} (h : i ∈ e.placesOf c) :
    ∃ inst, e.instances[i]? = some inst ∧ inst.client = c := by
  rw [mem_placesOf, clientAt?, List.getElem?_map] at h
  exact Option.map_eq_some_iff.mp h

/-! ### The requests of a client -/

/-- Once everything has ended, every request that returned was recorded. -/
theorem returned_of_isQuiet (h : (start config profiles).run? as = some (e, events))
    (hq : e.isQuiet) (c : ClientId) :
    ((e.eventsFor c events).map Event.returnedTally).sum =
      ((e.eventsFor c events).map (Event.onRecord Record.tally)).sum := by
  rw [sum_eventsFor, sum_eventsFor]
  refine Finset.sum_congr rfl fun i hi => ?_
  obtain ⟨inst, found, -⟩ := exists_of_mem_placesOf hi
  have hnone : inst.phase.pending = 0 := by
    have hended := isEnded_of_isQuiet hq found
    cases hphase : inst.phase with
    | recording record => rw [hphase] at hended; cases hended
    | _ => rfl
  rw [(run?_settles h found).returned, hnone, add_zero]

/-- Once everything has ended, every request returned or was abandoned. -/
theorem inFlight_of_isQuiet (h : (start config profiles).run? as = some (e, events))
    (hq : e.isQuiet) (c : ClientId) : InFlight (e.eventsFor c events) 0 := by
  rw [InFlight, countP_eventsFor, countP_eventsFor, countP_eventsFor, ← Finset.sum_add_distrib,
    Nat.add_zero]
  refine Finset.sum_congr rfl fun i hi => ?_
  obtain ⟨inst, found, -⟩ := exists_of_mem_placesOf hi
  have hnone : inst.inFlight = 0 := by
    have hended := isEnded_of_isQuiet hq found
    cases hphase : inst.phase with
    | awaiting t cost => rw [hphase] at hended; cases hended
    | _ => rw [Instance.inFlight, hphase]; rfl
  have hin := inFlight_instance h found
  rwa [InFlight, hnone, Nat.add_zero] at hin

/-- An instance abandons a request or loses a record once at most. -/
theorem broken_le (accepted : Engine.check profiles = .ok ())
    (h : (start config profiles).run? as = some (e, events)) {p : Profile} (hp : p ∈ profiles) :
    (e.eventsFor p.id events).countP Event.isAbandon +
      (e.eventsFor p.id events).countP Event.isLoss ≤ p.instances.toNat := by
  rw [countP_eventsFor, countP_eventsFor, ← Finset.sum_add_distrib, ← card_placesOf accepted hp,
    ← placesOf_run? h, Finset.card_eq_sum_ones]
  -- The sum is over the instances of the client, and each adds one at most.
  refine Finset.sum_le_sum fun i hi => ?_
  obtain ⟨inst, found, -⟩ := exists_of_mem_placesOf hi
  refine Nat.le_trans (run?_settles h found).broken ?_
  split <;> omega

/-- The calls of a client together take no longer than its instances were there. -/
theorem spent_le (accepted : Engine.check profiles = .ok ())
    (h : (start config profiles).run? as = some (e, events)) {p : Profile} (hp : p ∈ profiles) :
    ((e.eventsFor p.id events).map (Event.onRecord (·.latency.nanos))).sum ≤
      p.instances.toNat * e.now := by
  rw [sum_eventsFor, ← card_placesOf accepted hp, ← placesOf_run? h]
  refine Finset.sum_le_card_nsmul _ _ _ fun i hi => ?_
  obtain ⟨inst, found, -⟩ := exists_of_mem_placesOf hi
  exact (run?_settles h found).spent.le

/-- The record of an instance is one of its client. -/
theorem client_of_recorded (h : (start config profiles).run? as = some (e, events)) {i : Nat}
    {record : Record} {result : Except Fault Bool} (hmem : .recorded i record result ∈ events) :
    e.clientAt? i = some record.client := by
  have hof : .recorded i record result ∈ eventsOf i events :=
    List.mem_filter.mpr ⟨hmem, by simp [Event.instance?]⟩
  -- An event of a place without an instance does not occur.
  cases hfound : e.instances[i]? with
  | some inst =>
    rw [(run?_settles h hfound).records i record result hof, clientAt?, List.getElem?_map, hfound]
    rfl
  | none =>
    have hmissing := List.getElem?_eq_none_iff.mp hfound
    rw [run?_length_instances h] at hmissing
    rw [run?_eventsOf_eq_nil h hmissing] at hof
    cases hof

end Runs

/-! ### Records and the journal -/

section Journal

variable {e : Engine} {told : List Event}

/-- A record tells of its client. -/
private theorem eventsFor_recorded {i : Nat} {record : Record} {result : Except Fault Bool}
    (hclient : e.clientAt? i = some record.client) (c : ClientId) :
    e.eventsFor c [.recorded i record result] =
      if c = record.client then [.recorded i record result] else [] := by
  by_cases hc : c = record.client
  · simp [eventsFor, Event.instance?, hclient, hc]
  · have hne : ¬record.client = c := fun heq => hc heq.symm
    simp [eventsFor, Event.instance?, hclient, hc, hne]

/-- One record is counted or lost for its client. -/
private theorem sum_onRecord_singleton {M : Type} [AddCommMonoid M] (f : Record → M)
    (c : ClientId) (event : Event)
    (owned : ∀ i record result, event = .recorded i record result →
      e.clientAt? i = some record.client)
    (taken : ∀ i record, event ≠ .recorded i record (.ok false)) :
    ((e.eventsFor c [event]).map (Event.onRecord f)).sum =
      ((event.entry.of c).counted.map f).sum + ((event.entry.of c).lost.map f).sum := by
  cases event with
  | recorded i record result =>
    rw [eventsFor_recorded (owned i record result rfl), Event.entry, Journal.of_ofRecord]
    -- An event of another client is left out on both sides.
    by_cases hc : c = record.client
    · rw [if_pos hc, if_pos hc]
      rcases result with fault | (_ | _)
      · simp [Journal.ofRecord, Event.onRecord]
      · exact absurd rfl (taken i record)
      · simp [Journal.ofRecord, Event.onRecord]
    · rw [if_neg hc, if_neg hc]
      simp
  | _ =>
    -- All other events say nothing about records.
    have hnone : ∀ l : List Event, (∀ x ∈ l, Event.onRecord f x = 0) →
        (l.map (Event.onRecord f)).sum = 0 := by
      intro l hl
      rw [List.map_congr_left hl]
      simp
    rw [hnone]
    · simp [Event.entry, Journal.of]
    · intro x hx
      rw [List.mem_singleton.mp (List.mem_of_mem_filter hx)]
      rfl

/-- What the records of a client amount to, those counted and those lost, if none was refused. -/
theorem sum_onRecord {M : Type} [AddCommMonoid M] (f : Record → M) (c : ClientId)
    (owned : ∀ i record result, .recorded i record result ∈ told →
      e.clientAt? i = some record.client)
    (taken : ∀ i record, .recorded i record (.ok false) ∉ told) :
    ((e.eventsFor c told).map (Event.onRecord f)).sum =
      (((journalOf told).of c).counted.map f).sum + (((journalOf told).of c).lost.map f).sum := by
  induction told with
  | nil => simp [eventsFor]
  | cons event rest ih =>
    -- The first event adds its record to those of the others.
    have hsplit : event :: rest = [event] ++ rest := rfl
    have hfirst := sum_onRecord_singleton f c event
      (fun i record result heq => owned i record result (by rw [heq]; exact List.mem_cons_self))
      (fun i record heq => taken i record (by rw [heq]; exact List.mem_cons_self))
    have hrest := ih
      (fun i record result hmem => owned i record result (List.mem_cons_of_mem _ hmem))
      (fun i record hmem => taken i record (List.mem_cons_of_mem _ hmem))
    rw [hsplit, eventsFor_append, List.map_append, List.sum_append, hfirst, hrest,
      journalOf_append, journalOf_singleton, Journal.of_append, Journal.counted_append,
      Journal.lost_append, List.map_append, List.map_append, List.sum_append, List.sum_append]
    exact add_add_add_comm _ _ _ _

/-- One record may be lost for its client. -/
private theorem countP_isLoss_singleton (c : ClientId) (event : Event)
    (owned : ∀ i record result, event = .recorded i record result →
      e.clientAt? i = some record.client) :
    (e.eventsFor c [event]).countP Event.isLoss = (event.entry.of c).lost.length := by
  cases event with
  | recorded i record result =>
    rw [eventsFor_recorded (owned i record result rfl), Event.entry, Journal.of_ofRecord]
    -- Only a record that fails is lost.
    by_cases hc : c = record.client
    · rw [if_pos hc, if_pos hc]
      rcases result with fault | (_ | _) <;> rfl
    · rw [if_neg hc, if_neg hc]
      rfl
  | _ =>
    rw [List.countP_eq_zero.mpr]
    · simp [Event.entry, Journal.of]
    · intro x hx
      rw [List.mem_singleton.mp (List.mem_of_mem_filter hx)]
      simp [Event.isLoss]

/-- The records that a client lost are in the journal. -/
theorem countP_isLoss (c : ClientId)
    (owned : ∀ i record result, .recorded i record result ∈ told →
      e.clientAt? i = some record.client) :
    (e.eventsFor c told).countP Event.isLoss = ((journalOf told).of c).lost.length := by
  induction told with
  | nil => rfl
  | cons event rest ih =>
    have hsplit : event :: rest = [event] ++ rest := rfl
    have hfirst := countP_isLoss_singleton c event
      fun i record result heq => owned i record result (by rw [heq]; exact List.mem_cons_self)
    have hrest := ih fun i record result hmem => owned i record result (List.mem_cons_of_mem _ hmem)
    rw [hsplit, eventsFor_append, List.countP_append, hfirst, hrest, journalOf_append,
      journalOf_singleton, Journal.of_append, Journal.lost_append, List.length_append]

end Journal

end Engine

end ClosedLoop
