import ClosedLoop.Proofs.Engine.Clients
import Mathlib.Algebra.Order.BigOperators.Group.Finset

namespace ClosedLoop

/-!
# The rounds of an instance

* `InFlight` — so many requests of some events were issued and have neither returned nor been
  abandoned;
* `Round` — how far an instance has come since it issued a request;
* `Engine.closed_loop` — **the loops are closed**: an instance waits for the reply to its request
  and for its think time before it issues the next one.
-/

namespace Event

/-- Was a request issued? -/
def isIssue : Event → Bool
  | .issued _ _ _ => true
  | _ => false

/-- Did a request return? -/
def isReturn : Event → Bool
  | .returned _ _ _ => true
  | _ => false

/-- Was a request abandoned? -/
def isAbandon : Event → Bool
  | .quit _ inFlight => inFlight
  | _ => false

end Event

/-- Of the requests that the events tell of, so many are in flight: they have been issued and have
    neither returned nor been abandoned. -/
def InFlight (events : List Event) (n : Nat) : Prop :=
  events.countP Event.isIssue = events.countP Event.isReturn + events.countP Event.isAbandon + n

/-! ### Requests in flight -/

namespace Instance

/-- How many requests of an instance are in flight in its phase. -/
def inFlight (inst : Instance) : Nat := if inst.phase.isAwaiting then 1 else 0

/-- An instance has one request in flight at most. -/
theorem inFlight_le_one (inst : Instance) : inst.inFlight ≤ 1 := by
  unfold inFlight
  split <;> omega

/-- Whoever waits for a timer does not await an answer. -/
theorem not_isAwaiting_of_wake? {inst : Instance} {wake : Nat}
    (h : inst.phase.wake? = some wake) : inst.phase.isAwaiting = false := by
  cases hphase : inst.phase with
  | awaiting issued cost => rw [hphase] at h; cases h
  | _ => rfl

/-- A move keeps the account of the requests in flight. -/
theorem Moves.inFlight {i now : Nat} {inst next : Instance} {told new : List Event}
    (h : inst.Moves i now next new) (hin : InFlight told inst.inFlight) :
    InFlight (told ++ new) next.inFlight := by
  unfold InFlight at *
  rw [List.countP_append, List.countP_append, List.countP_append, hin]
  -- The phase before the move tells whether a request was in flight.
  cases h with
  | stays => rfl
  | issues waits due drawn =>
    have hidle : inst.inFlight = 0 := by rw [Instance.inFlight, not_isAwaiting_of_wake? waits]; rfl
    rw [hidle]
    rfl
  | returns awaits | abandons awaits =>
    have hbusy : inst.inFlight = 1 := by rw [Instance.inFlight, awaits]; rfl
    rw [hbusy]
    simp [Event.isIssue, Event.isReturn, Event.isAbandon, Instance.inFlight, Phase.isAwaiting]
    try omega
  | records holds | crashes holds =>
    have hidle : inst.inFlight = 0 := by rw [Instance.inFlight, holds]; rfl
    rw [hidle]
    rfl
  | ends rests =>
    have hidle : inst.inFlight = 0 := by rw [Instance.inFlight, rests]; rfl
    rw [hidle]
    rfl

end Instance

/-! ### From one request to the next -/

/-- How far an instance has come since it issued a request at `t`, with what has been told of it
    since: the reply came at `c`, its record was handed over at `d`. -/
inductive Round (i t : Nat) (think : Span) : List Event → Nat → Phase → Prop where
  | awaiting {now : Nat} {cost : Cost} (began : t ≤ now) :
      Round i t think [] now (.awaiting t cost)
  | recording {c now : Nat} {answer : Reply} {record : Record} (began : t ≤ c) (came : c ≤ now)
      (issued : record.issued = Clock.reading t) (completed : record.completed = Clock.reading c) :
      Round i t think [.returned i c answer] now (.recording record)
  | resting {c d now : Nat} {answer : Reply} {record : Record} {taken : Bool} (began : t ≤ c)
      (came : c ≤ d) (recorded : d ≤ now) (issued : record.issued = Clock.reading t)
      (completed : record.completed = max (Clock.reading c) (Clock.reading d)) :
      Round i t think [.returned i c answer, .recorded i record (.ok taken)] now
        (.resting (Clock.wake d think))
  | ended {told : List Event} {now : Nat} {phase : Phase} (gone : phase.isEnded) :
      Round i t think told now phase

/-- Time may pass in a round. -/
theorem Round.later {i t now later : Nat} {think : Span} {told : List Event} {phase : Phase}
    (h : Round i t think told now phase) (passed : now ≤ later) :
    Round i t think told later phase := by
  cases h with
  | awaiting began => exact .awaiting (Nat.le_trans began passed)
  | recording began came issued completed =>
    exact .recording began (Nat.le_trans came passed) issued completed
  | resting began came recorded issued completed =>
    exact .resting began came (Nat.le_trans recorded passed) issued completed
  | ended gone => exact .ended gone

/-- A move that issues no request stays in the round. -/
theorem Round.move {i t now later : Nat} {inst next : Instance} {told new : List Event}
    (h : Round i t inst.profile.thinkPeriod told now inst.phase) (move : inst.Moves i now next new)
    (passed : now ≤ later) (silent : new.countP Event.isIssue = 0) :
    Round i t inst.profile.thinkPeriod (told ++ new) later next.phase := by
  -- Each move fits one stage of the round and leads to the next one.
  cases move with
  | stays =>
    rw [List.append_nil]
    exact h.later passed
  | issues waits due drawn => simp [Event.isIssue] at silent
  | returns awaits =>
    rw [awaits] at h
    cases h with
    | awaiting began => exact .recording began passed rfl rfl
    | ended gone => cases gone
  | records holds =>
    rw [holds] at h
    cases h with
    | recording began came issued completed =>
      exact .resting began came passed issued (by rw [Record.completedBy, completed])
    | ended gone => cases gone
  | crashes holds => exact .ended rfl
  | abandons awaits => exact .ended rfl
  | ends rests => exact .ended rfl

/-- A call takes no longer than the time from its issue to its record. -/
theorem latency_le_of_stamps {record : Record} {t c d : Nat} (came : c ≤ d)
    (issued : record.issued = Clock.reading t)
    (completed : record.completed = max (Clock.reading c) (Clock.reading d)) :
    record.latency.nanos ≤ d - t := by
  rw [Record.latency, Span.nanos_since, issued, completed, Span.nanos_max, Clock.reading,
    Clock.reading, Clock.reading, Span.nanos_clamp, Span.nanos_clamp, Span.nanos_clamp]
  omega

/-- A round is over when the next request may be issued: the reply was recorded, and the think time
    has passed since. -/
theorem Round.complete {i t now wake : Nat} {think : Span} {told : List Event} {phase : Phase}
    (h : Round i t think told now phase) (waits : phase.wake? = some wake) (due : wake ≤ now)
    (sleeps : ∀ begun, begun + think.nanos ≤ Clock.wake begun think) :
    ∃ c answer record taken, told = [.returned i c answer, .recorded i record (.ok taken)] ∧
      record.issued = Clock.reading t ∧ t ≤ c ∧ c + think.nanos ≤ now ∧
        t + record.latency.nanos + think.nanos ≤ now := by
  cases h with
  | awaiting began => cases waits
  | recording began came issued completed => cases waits
  | @resting c d _ answer record taken began came recorded issued completed =>
    cases waits
    -- The sleep begins when the record is handed over, which is not before the latency is over.
    have hslept := sleeps d
    refine ⟨c, answer, record, taken, rfl, issued, began, by omega, ?_⟩
    have hlatency := latency_le_of_stamps came issued completed
    omega
  | ended gone =>
    cases phase with
    | stopped | crashed => cases waits
    | _ => cases gone

namespace Engine

/-- A request is issued by an instance that may issue it, which then awaits the reply. -/
theorem Steps.issued {e e' : Engine} {a : Action} {i t : Nat} {cost : Cost}
    (h : Steps e a e' [.issued i t cost]) :
    t = e.now ∧ e'.now = e.now ∧ ∃ inst wake words, e.instances[i]? = some inst ∧
      inst.phase.wake? = some wake ∧ wake ≤ t ∧
        e'.instances[i]? = some { inst with words, phase := .awaiting t cost } := by
  cases h with
  | @issue _ inst next _ found turn =>
    refine ⟨rfl, rfl, inst, ?_⟩
    have hlt : i < e.instances.length := (List.getElem?_eq_some_iff.mp found).1
    cases Instance.moves_of_issue? (i := i) turn with
    | @issues wake _ words waits due drawn =>
      exact ⟨wake, words, found, waits, due, List.getElem?_set_self hlt⟩

/-- After every run an instance has the profile it had at the start. -/
theorem profile_of_run? {config : EngineConfig} {profiles : List Profile} {as : List Action}
    {e : Engine} {events : List Event} (h : (start config profiles).run? as = some (e, events))
    {i : Nat} {inst : Instance} (found : e.instances[i]? = some inst) :
    inst.profile ∈ profiles ∧ e.clientAt? i = some inst.profile.id := by
  refine ⟨?_, by rw [clientAt?, List.getElem?_map, found]; rfl⟩
  -- No step changes a profile, so the profile is one from the start.
  have hmem : inst.profile ∈ e.instances.map Instance.profile :=
    List.mem_map.mpr ⟨inst, List.mem_of_getElem? found, rfl⟩
  have hframe := congrArg (List.map Prod.fst) (run?_frame h)
  rw [List.map_map, List.map_map] at hframe
  have hsame : e.instances.map Instance.profile =
      (instancesFrom config.seed profiles).map Instance.profile := hframe
  rw [hsame] at hmem
  obtain ⟨first, hfirst, heq⟩ := List.mem_map.mp hmem
  rw [← heq]
  exact profile_mem_of_instancesFrom hfirst

/-! ### Every run -/

/-- What the events of a run tell about its loops. -/
structure Closed (profiles : List Profile) (e : Engine) (events : List Event) : Prop where
  /-- No instance has two requests in flight. -/
  instances : ∀ i, ∃ n ≤ 1, InFlight (eventsOf i events) n
  /-- No client has more requests in flight than instances. -/
  clients : ∀ p ∈ profiles, ∃ n ≤ p.instances.toNat, InFlight (e.eventsFor p.id events) n
  /-- Between two requests of an instance, issued at `t` and at `t'`, the first returns at some `c`
      and is recorded, and the think time passes from then on. -/
  rounds : ∀ {before between after : List Event} {i t t' : Nat} {cost cost' : Cost},
    events = before ++ .issued i t cost :: (between ++ .issued i t' cost' :: after) →
    (eventsOf i between).countP Event.isIssue = 0 →
    ∃ p ∈ profiles, e.clientAt? i = some p.id ∧ ∃ c answer record taken,
      eventsOf i between = [.returned i c answer, .recorded i record (.ok taken)] ∧
        record.issued = Clock.reading t ∧ t ≤ c ∧ c + p.thinkPeriod.nanos ≤ t' ∧
          t + record.latency.nanos + p.thinkPeriod.nanos ≤ t'

section Closed

variable {config : EngineConfig} {profiles : List Profile} {as : List Action} {e : Engine}
  {events : List Event}

/-- The requests of an instance in flight are those that its phase awaits. -/
theorem inFlight_instance (h : (start config profiles).run? as = some (e, events)) {i : Nat}
    {inst : Instance} (found : e.instances[i]? = some inst) :
    InFlight (eventsOf i events) inst.inFlight := by
  refine run?_instance_of_start (motive := fun inst told _ => InFlight told inst.inFlight) h found
    (fun first hfresh => ?_) fun hin move _ => move.inFlight hin
  rw [Instance.inFlight, hfresh]
  rfl

/-- No instance has two requests in flight. -/
theorem inFlight_place (h : (start config profiles).run? as = some (e, events)) (i : Nat) :
    ∃ n ≤ 1, InFlight (eventsOf i events) n := by
  cases hfound : e.instances[i]? with
  | some inst => exact ⟨inst.inFlight, inst.inFlight_le_one, inFlight_instance h hfound⟩
  | none =>
    refine ⟨0, Nat.zero_le _, ?_⟩
    have hmissing := List.getElem?_eq_none_iff.mp hfound
    rw [run?_length_instances h] at hmissing
    rw [run?_eventsOf_eq_nil h hmissing]
    rfl

/-- No client has more requests in flight than instances. -/
theorem inFlight_client (accepted : Engine.check profiles = .ok ())
    (h : (start config profiles).run? as = some (e, events)) {p : Profile} (hp : p ∈ profiles) :
    ∃ n ≤ p.instances.toNat, InFlight (e.eventsFor p.id events) n := by
  -- The requests of a client are those of its instances, each of which has one at most.
  choose n hn hin using inFlight_place h
  refine ⟨∑ i ∈ e.placesOf p.id, n i, ?_, ?_⟩
  · calc ∑ i ∈ e.placesOf p.id, n i ≤ ∑ i ∈ e.placesOf p.id, 1 :=
          Finset.sum_le_sum fun i _ => hn i
      _ = p.instances.toNat := by
          rw [← Finset.card_eq_sum_ones, placesOf_run? h, card_placesOf accepted hp]
  · rw [InFlight, countP_eventsFor, countP_eventsFor, countP_eventsFor, ← Finset.sum_add_distrib,
      ← Finset.sum_add_distrib]
    exact Finset.sum_congr rfl fun i _ => hin i

/-- **The loops are closed.** In every run of accepted profiles, whatever the calls return, no
    instance has two requests in flight, and it issues no request before its think time has passed
    since the last one returned. All that is asked of the clock is that sleeping for a think time
    never ends early. -/
theorem closed_loop (accepted : Engine.check profiles = .ok ())
    (sleeps : ∀ p ∈ profiles, ∀ begun,
      begun + p.thinkPeriod.nanos ≤ Clock.wake begun p.thinkPeriod)
    (h : (start config profiles).run? as = some (e, events)) : Closed profiles e events := by
  refine ⟨inFlight_place h, fun p hp => inFlight_client accepted h hp, ?_⟩
  intro before between after i t t' cost cost' hevents hsilent
  rw [hevents] at h
  -- Both requests are issued by steps of the run, with the events between them in between.
  obtain ⟨as₁, as₂, a, mid, next, -, hbefore, hissue, hrest⟩ := run?_split h
  obtain ⟨as₃, as₄, a', mid', next', -, hbetween, hissue', -⟩ := run?_split hrest
  obtain ⟨rfl, hnow, inst, wake, words, hfound, -, -, hawaiting⟩ := hissue.issued
  obtain ⟨rfl, -, last, wake', words', hlast, waits, due, -⟩ := hissue'.issued
  -- The round of the first request goes on until the second one is issued.
  obtain ⟨last', hlast', hprofile, hround⟩ := run?_instance (motive := fun inst' told now =>
    inst'.profile = inst.profile ∧ (told.countP Event.isIssue = 0 →
      Round i mid.now inst.profile.thinkPeriod told now inst'.phase))
    hbetween hawaiting ⟨rfl, fun _ => .awaiting (Nat.le_of_eq hnow.symm)⟩ (by
      rintro inst' after' told new now later ⟨hprofile, hround⟩ move passed
      refine ⟨move.frame.1.trans hprofile, fun hsilent => ?_⟩
      rw [List.countP_append, Nat.add_eq_zero_iff] at hsilent
      have hstay := hround hsilent.1
      rw [← hprofile] at hstay ⊢
      exact hstay.move move passed hsilent.2)
  rw [hlast, Option.some.injEq] at hlast'
  subst hlast'
  obtain ⟨hmem, hclient⟩ := profile_of_run? hbefore hfound
  have hwhere : e.clientAt? i = some inst.profile.id := by
    rw [clientAt?_run? h, ← clientAt?_run? hbefore, hclient]
  exact ⟨inst.profile, hmem, hwhere,
    (hround hsilent).complete waits due (sleeps inst.profile hmem)⟩

/-- Two instances that think for five milliseconds. -/
def thinkingPair : Profile := { Profile.blank 3 "a" with instances := 2, thinkTime := 0.005 }

/-- The profile is accepted. -/
theorem check_thinkingPair : Engine.check [thinkingPair] = .ok () := by
  rw [Engine.check, validateAll_ok_iff]
  refine ⟨fun p hp => ?_, by decide⟩
  rw [List.mem_singleton.mp hp, Profile.validate_ok_iff]
  decide +kernel

/-- The first of two instances goes round twice, and the first call that returns fails. -/
def twoRounds : List Action :=
  [.issue 0, .issue 1, .advance 2000000,
    .reply 0 (.error ((EndpointError.failure "").withRetryable true)), .record 0, .advance 7000000,
    .issue 0, .reply 1 (.ok ⟨none⟩), .advance 8000000, .record 1]

/-- The instance goes round twice, and its think times are short enough to be waited for. -/
theorem closed_loop_twoRounds :
    Engine.check [thinkingPair] = .ok () ∧
      (∀ p ∈ [thinkingPair], ∀ begun,
        begun + p.thinkPeriod.nanos ≤ Clock.wake begun p.thinkPeriod) ∧
      ∃ e events, (start (.standard 1) [thinkingPair]).run? twoRounds = some (e, events) ∧
        (eventsOf 0 events).countP Event.isIssue = 2 ∧ Closed [thinkingPair] e events := by
  have accepted := check_thinkingPair
  have sleeps : ∀ p ∈ [thinkingPair], ∀ begun,
      begun + p.thinkPeriod.nanos ≤ Clock.wake begun p.thinkPeriod := by
    intro p hp begun
    rw [List.mem_singleton.mp hp]
    exact Clock.add_nanos_le_wake begun (by decide +kernel)
  have hruns : ((start (.standard 1) [thinkingPair]).run? twoRounds).isSome := by decide +kernel
  have htwo : ((start (.standard 1) [thinkingPair]).run? twoRounds).all
      fun result => (eventsOf 0 result.2).countP Event.isIssue = 2 := by decide +kernel
  obtain ⟨⟨e, events⟩, h⟩ := Option.isSome_iff_exists.mp hruns
  rw [h] at htwo
  exact ⟨accepted, sleeps, e, events, h, of_decide_eq_true htwo, closed_loop accepted sleeps h⟩

end Closed

end Engine

end ClosedLoop
