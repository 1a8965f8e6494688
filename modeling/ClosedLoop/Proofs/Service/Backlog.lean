import ClosedLoop.Proofs.Service.Finish
import Mathlib.Algebra.Order.BigOperators.Group.List

namespace ClosedLoop

/-!
# The backlog of an endpoint

The work that is left of a call is the time until it would return if it were not held up. A move
leaves it as it is, and while time passes it becomes less for every call inside a stage. Since
somebody is inside a stage as long as calls are in service, the backlog is worked off without a
break.

* `Call.Timely`, `Arrivals.InStep` — the clock and all timers are at whole milliseconds, and none is
  overdue;
* `Call.remaining`, `Arrivals.work` — the work that is left;
* `Course.Sound.exists_inside` — **no deadlock**: of the calls in service one is inside a stage;
* `Arrivals.Backlogged` — the backlog is not more than what was offered;
* `Arrivals.Changes.backlogged` — every step keeps it so.
-/

/-! ### In step with the clock -/

/-- The timer of the call is not overdue and fires at a whole millisecond. -/
def Call.Timely (now : Nat) (c : Call) : Prop :=
  ∀ wake, c.wake? = some wake → now ≤ wake ∧ Clock.tick ∣ wake

namespace Call

variable {now id : Nat} {reply : Option Reply} {stages : List Stage} {c d : Call}

/-- A call that enters a stage at a tick leaves it at a tick. -/
theorem timely_enter (hnow : Clock.tick ∣ now) (pool : Option Pool) (holds : List Span)
    (later : List Stage) :
    Call.Timely now ⟨id, .enter now pool holds, later, reply⟩ := by
  intro wake hwake
  cases holds with
  | nil =>
    obtain rfl := Option.some.inj hwake
    exact ⟨Nat.le_refl now, hnow⟩
  | cons d rest =>
    obtain rfl := Option.some.inj hwake
    exact ⟨Clock.le_wake now d, Clock.tick_dvd_wake hnow d⟩

/-- A call that has been put before its first stage leaves it at a tick. -/
theorem Placed.timely (h : Placed now id reply stages d) (hnow : Clock.tick ∣ now) :
    d.Timely now := by
  cases h with
  | enters s later => exact timely_enter hnow _ _ _
  | waits => exact fun _ hwake => by cases hwake
  | stays => exact fun _ hwake => by cases hwake

/-- Being let in makes a call enter its stage, and nothing else. -/
theorem Admitted.timely (h : c.Admitted now d) (hnow : Clock.tick ∣ now) (hc : c.Timely now) :
    d.Timely now := by
  cases h with
  | stays => exact hc
  | enters => exact timely_enter hnow _ _ _

/-- A call that goes on enters its next stage. -/
theorem Goes.timely (h : c.Goes now d) (hnow : Clock.tick ∣ now) : d.Timely now := by
  cases h with
  | renews =>
    intro wake hwake
    obtain rfl := Option.some.inj hwake
    exact ⟨Clock.le_wake now _, Clock.tick_dvd_wake hnow _⟩
  | passes _ _ hd => exact hd.timely hnow

/-! ### The work that is left of a call -/

/-- The time until the call returns if it is not held up from now on. -/
def remaining (now : Nat) (c : Call) : Nat := c.finish now - now

/-- All its work is left to a call that has been put before its first stage. -/
theorem remaining_placed (h : Placed now id reply stages d) (hnow : Clock.tick ∣ now) :
    d.remaining now = ((stages.flatMap (·.holds)).map Clock.pause).sum := by
  rw [remaining, h.finish_eq, Itinerary.finishOf_eq hnow, Nat.add_sub_cancel_left]

/-- A call that is let in has as much left as before: the time it waited was no work. -/
theorem remaining_admitted (h : c.Admitted now d) : d.remaining now = c.remaining now := by
  rw [remaining, remaining, h.finish_eq]

/-- A call that goes on has as much left as before, as its stage has ended. -/
theorem remaining_goes (h : c.Goes now d) (hc : c.Timely now) :
    d.remaining now = c.remaining now := by
  rw [remaining, remaining, h.finish_eq fun wake hwake => (hc wake hwake).1]

/-- While time passes, the work of a call inside a stage becomes less. -/
theorem remaining_inside {wake t : Nat} (hwake : c.wake? = some wake) (hnow : now ≤ t)
    (ht : t ≤ wake) : c.remaining t + (t - now) = c.remaining now := by
  have hle := Itinerary.le_finishOf wake c.toCome
  rw [remaining, remaining, finish, finish, hwake, Option.getD_some, Option.getD_some]
  omega

/-- The work of a call outside does not change while time passes. -/
theorem remaining_outside {t : Nat} (hwake : c.wake? = none) (hnow : Clock.tick ∣ now)
    (ht : Clock.tick ∣ t) : c.remaining t = c.remaining now := by
  rw [remaining, remaining, finish, finish, hwake, Option.getD_none, Option.getD_none,
    Itinerary.finishOf_eq hnow, Itinerary.finishOf_eq ht, Nat.add_sub_cancel_left,
    Nat.add_sub_cancel_left]

end Call

/-! ### No deadlock -/

/-- **Of the calls in service one is inside a stage**, unless they stay for ever. -/
theorem Course.Sound.exists_inside {capacity : Pool → Nat} {s : Course} (h : s.Sound capacity)
    (hstay : ∀ c ∈ s.traffic.calls, c.position ≠ .unanswered) (hcalls : s.traffic.calls ≠ []) :
    ∃ c ∈ s.traffic.calls, ∃ wake, c.wake? = some wake := by
  obtain ⟨c, hc⟩ := List.exists_mem_of_ne_nil _ hcalls
  cases hpos : c.position with
  | timed pool wake holds => exact ⟨c, hc, wake, by rw [Call.wake?, hpos]⟩
  | unanswered => exact absurd hpos (hstay c hc)
  | queued p holds =>
    -- all places of the pool are taken, and it has one at least
    have hwaits : c.waitsFor p = true := by
      rw [Traffic.waitsFor_of_queued hpos]
      exact decide_eq_true rfl
    have hqueue : s.traffic.queue p ≠ [] :=
      List.ne_nil_of_mem (Traffic.mem_idsOf.mpr ⟨c, hc, hwaits, rfl⟩)
    have hfull := h.busy p hqueue
    have hplaces : 0 < s.traffic.capacity p := by
      rw [h.places]
      exact h.ahead c hc p (Call.mem_ahead_of_waitsFor hwaits)
    obtain ⟨id, hid⟩ := List.exists_mem_of_length_pos (hfull ▸ hplaces)
    obtain ⟨d, hd, hoccupies, -⟩ := Traffic.mem_idsOf.mp hid
    cases hposd : d.position with
    | timed pool wake rest => exact ⟨d, hd, wake, by rw [Call.wake?, hposd]⟩
    | queued q rest =>
      rw [Traffic.occupies_of_queued hposd] at hoccupies
      cases hoccupies
    | unanswered =>
      rw [Call.occupies, hposd] at hoccupies
      cases hoccupies

/-! ### The backlog -/

/-- The time that a call takes from a whole millisecond on if it is not held up. -/
def Itinerary.work (i : Itinerary) : Nat := (i.holds.map Clock.pause).sum

namespace Arrivals

/-- The work of the calls that are still to arrive. -/
def offered (pending : List Arrival) : Nat := (pending.map fun a => a.itinerary.work).sum

/-- The instant of the last arrival. -/
def lastInstant (arrivals : List Arrival) : Nat := (arrivals.map Arrival.instant).max?.getD 0

/-- All the work that is left. -/
def work (s : Arrivals) : Nat :=
  offered s.pending + (s.traffic.calls.map (Call.remaining s.now)).sum

/-- The clock, all timers and all arrivals are at whole milliseconds, and no timer is overdue. -/
structure InStep (s : Arrivals) : Prop where
  now : Clock.tick ∣ s.now
  pending : ∀ a ∈ s.pending, Clock.tick ∣ a.instant
  calls : ∀ c ∈ s.traffic.calls, c.Timely s.now

variable {arrivals pending : List Arrival} {s s' : Arrivals} {t : Nat}

/-- No arrival comes after the last one. -/
theorem instant_le_lastInstant {a : Arrival} (ha : a ∈ arrivals) :
    a.instant ≤ lastInstant arrivals :=
  List.le_max?_getD_of_mem (List.mem_map_of_mem ha)

/-- What is offered does not depend on the order of the arrivals. -/
theorem offered_perm {others : List Arrival} (h : pending.Perm others) :
    offered pending = offered others :=
  (h.map _).sum_eq

/-- The work offered by a first arrival and by the others. -/
theorem offered_cons (a : Arrival) (rest : List Arrival) :
    offered (a :: rest) = a.itinerary.work + offered rest := by
  rw [offered, List.map_cons, List.sum_cons]
  rfl

/-- Every step is in step with the clock. -/
theorem Changes.inStep (h : s.Changes s') (hs : s.InStep) : s'.InStep := by
  cases h with
  | goes hnow hpending hcalls hadmitted hgoes hcalls' =>
    refine ⟨hnow ▸ hs.now, hpending ▸ hs.pending, ?_⟩
    rw [hnow]
    intro e he
    rcases List.mem_cons.mp (hcalls'.mem_iff.mp he) with rfl | hother
    · exact hgoes.timely hs.now
    -- Every other call is as it was, or has been let in.
    · obtain ⟨c, hc, hd⟩ := exists_of_mem_admitted hadmitted hother
      exact hd.timely hs.now (hs.calls c (hcalls.mem_iff.mpr (List.mem_cons_of_mem _ hc)))
  | ends hnow hpending hcalls hadmitted _ hcalls' =>
    refine ⟨hnow ▸ hs.now, hpending ▸ hs.pending, ?_⟩
    rw [hnow]
    intro e he
    obtain ⟨c, hc, hd⟩ := exists_of_mem_admitted hadmitted (hcalls'.mem_iff.mp he)
    exact hd.timely hs.now (hs.calls c (hcalls.mem_iff.mpr (List.mem_cons_of_mem _ hc)))
  | @arrives a _ hnow _ hpending hd hcalls' =>
    refine ⟨hnow ▸ hs.now,
      fun b hb => hs.pending b (hpending.mem_iff.mpr (List.mem_cons_of_mem a hb)), ?_⟩
    rw [hnow]
    intro e he
    rcases List.mem_cons.mp (hcalls'.mem_iff.mp he) with rfl | hold
    · exact hd.timely hs.now
    · exact hs.calls e hold
  | @turns a _ hnow _ hpending _ _ hcalls' =>
    refine ⟨hnow ▸ hs.now,
      fun b hb => hs.pending b (hpending.mem_iff.mpr (List.mem_cons_of_mem a hb)), ?_⟩
    rw [hnow, hcalls']
    exact hs.calls
  | @waits t hlater hnext hs' =>
    subst hs'
    refine ⟨?_, hs.pending, fun c hc wake hwake =>
      ⟨hnext.calls c hc wake hwake, (hs.calls c hc wake hwake).2⟩⟩
    -- The clock goes to the end of a stage or to an arrival, and both are ticks.
    rcases hnext.reached with ⟨c, hc, hwake⟩ | ⟨a, ha, hinstant⟩
    · exact (hs.calls c hc t hwake).2
    · exact hinstant ▸ hs.pending a ha

/-- What is offered after a step was offered before it. -/
theorem Changes.offered_le (h : s.Changes s') : offered s'.pending ≤ offered s.pending := by
  cases h with
  | goes _ hpending => rw [hpending]
  | ends _ hpending => rw [hpending]
  | arrives _ _ hpending =>
    rw [offered_perm hpending, offered_cons]
    exact Nat.le_add_left _ _
  | turns _ _ hpending =>
    rw [offered_perm hpending, offered_cons]
    exact Nat.le_add_left _ _
  | waits _ _ hs' => rw [hs']

/-- Calls that are admitted have the same work left. -/
theorem sum_remaining_admitted {now : Nat} {others admitted : List Call}
    (h : List.Forall₂ (Call.Admitted now) others admitted) :
    (admitted.map (Call.remaining now)).sum = (others.map (Call.remaining now)).sum := by
  rw [map_eq_of_admitted (fun _ _ hc => Call.remaining_admitted hc) h]

/-- A step that takes no time leaves the work as it is, or less. -/
theorem Changes.work_le (h : s.Changes s') (hs : s.InStep) (hnow : s'.now = s.now) :
    s'.work ≤ s.work := by
  unfold work
  rw [hnow]
  cases h with
  -- The call that goes on and the calls that are let in have as much left as before.
  | goes _ hpending hcalls hadmitted hgoes hcalls' =>
    have hc := hs.calls _ (hcalls.mem_iff.mpr List.mem_cons_self)
    rw [hpending, (hcalls'.map _).sum_eq, (hcalls.map _).sum_eq, List.map_cons, List.map_cons,
      List.sum_cons, List.sum_cons, Call.remaining_goes hgoes hc, sum_remaining_admitted hadmitted]
  | ends _ hpending hcalls hadmitted _ hcalls' =>
    rw [hpending, (hcalls'.map _).sum_eq, (hcalls.map _).sum_eq, List.map_cons, List.sum_cons,
      sum_remaining_admitted hadmitted]
    omega
  | arrives _ _ hpending hd hcalls' =>
    -- What was offered by the arrival is now the work of its call.
    have hwork := Call.remaining_placed hd hs.now
    rw [offered_perm hpending, offered_cons, (hcalls'.map _).sum_eq, List.map_cons, List.sum_cons,
      hwork, Itinerary.work, Itinerary.holds]
    omega
  | turns _ _ hpending _ _ hcalls' =>
    rw [offered_perm hpending, offered_cons, hcalls']
    omega
  | waits hlater _ hs' =>
    rw [hs'] at hnow
    exact absurd hnow.symm (Nat.ne_of_lt hlater)

/-- **While time passes, the backlog is worked off**: if a call is inside a stage, the work becomes
less by as much as the time that has passed. -/
theorem work_wait (hs : s.InStep) (hlater : s.now < t) (hnext : s.Upcoming t)
    (ht : Clock.tick ∣ t) (hinside : ∃ c ∈ s.traffic.calls, ∃ wake, c.wake? = some wake) :
    { s with now := t }.work + (t - s.now) ≤ s.work := by
  have hnow := Nat.le_of_lt hlater
  have hle : ∀ c ∈ s.traffic.calls, c.remaining t ≤ c.remaining s.now := by
    intro c hc
    cases hwake : c.wake? with
    | none => exact Nat.le_of_eq (Call.remaining_outside hwake hs.now ht)
    | some wake =>
      have hless := Call.remaining_inside hwake hnow (hnext.calls c hc wake hwake)
      omega
  obtain ⟨c, hc, wake, hwake⟩ := hinside
  have hless := Call.remaining_inside hwake hnow (hnext.calls c hc wake hwake)
  -- One call is inside a stage until then or later. The others work, too, or wait.
  obtain ⟨before, behind, hcalls⟩ := List.append_of_mem hc
  have hbefore : (before.map (Call.remaining t)).sum ≤ (before.map (Call.remaining s.now)).sum :=
    List.sum_le_sum fun d hd => hle d (by rw [hcalls]; exact List.mem_append_left _ hd)
  have hbehind : (behind.map (Call.remaining t)).sum ≤ (behind.map (Call.remaining s.now)).sum :=
    List.sum_le_sum fun d hd => hle d (by
      rw [hcalls]
      exact List.mem_append_right _ (List.mem_cons_of_mem c hd))
  simp only [work, hcalls, List.map_append, List.map_cons, List.sum_append, List.sum_cons]
  omega

/-- The backlog is not more than what the arrivals offered, from the last of them on. -/
structure Backlogged (arrivals : List Arrival) (s : Arrivals) : Prop where
  inStep : s.InStep
  offered : Arrivals.offered s.pending ≤ Arrivals.offered arrivals
  work : s.now + s.work ≤ lastInstant arrivals + Arrivals.offered arrivals

/-- At the start all work is on offer. -/
theorem backlogged_start (capacity : Pool → Nat)
    (hticks : ∀ a ∈ arrivals, Clock.tick ∣ a.instant) :
    (start capacity arrivals).Backlogged arrivals := by
  have hperm := pending_start capacity arrivals
  have hoffered : offered (start capacity arrivals).pending = offered arrivals :=
    offered_perm hperm
  refine ⟨⟨Nat.dvd_zero _, fun a ha => hticks a (hperm.mem_iff.mp ha), ?_⟩, ?_, ?_⟩
  · exact fun c hc => absurd hc List.not_mem_nil
  · exact Nat.le_of_eq hoffered
  · rw [Arrivals.work, hoffered]
    simp [start, Traffic.idle]

/-- **Every step keeps the backlog within what was offered**, if somebody is inside a stage whenever
calls are in service. -/
theorem Changes.backlogged (h : s.Changes s') (hs : s.Backlogged arrivals)
    (hpending : ∀ a ∈ s.pending, a ∈ arrivals)
    (hinside : s.traffic.calls ≠ [] → ∃ c ∈ s.traffic.calls, ∃ wake, c.wake? = some wake) :
    s'.Backlogged arrivals := by
  have hinStep := h.inStep hs.inStep
  have hoffered := Nat.le_trans h.offered_le hs.offered
  have hwork := hs.work
  refine ⟨hinStep, hoffered, ?_⟩
  by_cases hnow : s'.now = s.now
  · have hle := h.work_le hs.inStep hnow
    omega
  · cases h with
    | @waits t hlater hnext hs' =>
      subst hs'
      by_cases hcalls : s.traffic.calls = []
      · -- nobody is in service, so the clock goes to an arrival
        rcases hnext.reached with ⟨c, hc, -⟩ | ⟨a, ha, hinstant⟩
        · rw [hcalls] at hc
          cases hc
        · have hlast := instant_le_lastInstant (hpending a ha)
          have hidle : { s with now := t }.work = Arrivals.offered s.pending := by
            simp [Arrivals.work, hcalls]
          show t + _ ≤ _
          have := hs.offered
          omega
      · have hless := work_wait hs.inStep hlater hnext hinStep.now (hinside hcalls)
        show t + _ ≤ _
        omega
    -- In all other cases the clock stands still.
    | goes hsame => exact absurd hsame hnow
    | ends hsame => exact absurd hsame hnow
    | arrives hsame => exact absurd hsame hnow
    | turns hsame => exact absurd hsame hnow

end Arrivals

end ClosedLoop
