import ClosedLoop.Proofs.Engine.Grid

namespace ClosedLoop

/-!
# The windows that are shown

The windows of a client are those that the ticks of its monitor show and the one that is flushed at
the end. On a run on time all of them lie on the grid of its period, but for the end of the last.

* `emissionsOf` — the windows of a client that were shown, in their order;
* `Engine.Steps.emits`, `Engine.run?_reported` — these are the ones that are cut and reported;
* `Engine.LastWindow`, `Engine.lastWindow_of_flush` — the flushed window begins at the last point
  of the grid that was reached;
* `Engine.windows_on_grid` — **every window of a client lies on the grid of its period**.
-/

/-- The windows of the client of a monitor that were shown: those of its ticks and, after them, what
    was flushed. -/
def emissionsOf (m : Nat) (c : ClientId) (events : List Event) : List Snapshot :=
  (ticksOf m events).filterMap Prod.snd ++ (flushesOf events).flatten.filter (·.client = c)

namespace Engine

variable {e e' : Engine} {a : Action} {told new : List Event} {m : Nat} {p : Profile}

/-! ### What was cut -/

/-- The windows of a client that were cut are shown in this order, and flushed at the end only. -/
structure Emits (m : Nat) (c : ClientId) (e : Engine) (told : List Event) : Prop where
  flushed : ¬e.status.isOver → flushesOf told = []
  shown : (journalOf told).shown.filter (·.client = c) = emissionsOf m c told

/-- Every step keeps it so. -/
theorem Steps.emits {c : ClientId} (h : Steps e a e' new)
    (hspent : e.status.isOver → e.ledger.Spent) (hnodup : (e.monitors.map Monitor.client).Nodup)
    (hown : (e.monitors.map Monitor.client)[m]? = some c) (hemits : e.Emits m c told) :
    e'.Emits m c (told ++ new) := by
  -- Most steps show nothing, neither by a tick nor by a flush.
  have hnothing : ∀ {e' : Engine} {new : List Event}, (¬e'.status.isOver → ¬e.status.isOver) →
      (journalOf new).shown = [] → (ticksOf m new).filterMap Prod.snd = [] → flushesOf new = [] →
        e'.Emits m c (told ++ new) := by
    intro e' new hover hjournal hticks hflushes
    refine ⟨fun hnot => ?_, ?_⟩
    · rw [flushesOf_append, hemits.flushed (hover hnot), hflushes]
      rfl
    · rw [journalOf_append, Journal.shown_append, hjournal, emissionsOf, ticksOf_append,
        List.filterMap_append, hticks, flushesOf_append, hflushes, List.append_nil, List.append_nil,
        List.append_nil]
      exact hemits.shown
  cases h with
  | record | crash =>
    refine hnothing id ?_ rfl rfl
    rw [journalOf_singleton, Event.entry, Journal.shown_ofRecord]
  | @cutNothing i | @cutFails i =>
    refine hnothing id rfl ?_ rfl
    by_cases hi : i = m <;> simp [ticksOf, Event.tick?, hi]
  | @cut i tick monitor s found due waits kept =>
    -- A window with something to show was not flushed yet.
    have hover : ¬e.status.isOver := fun hover => by
      rw [((hspent hover).take _ _).2.2] at kept
      cases kept
    have hclient : s.client = c ↔ i = m := by
      rw [Ledger.client_of_take kept]
      exact client_eq_iff hnodup hown found
    refine ⟨fun hnot => ?_, ?_⟩
    · rw [flushesOf_append, hemits.flushed hnot]
      rfl
    · rw [journalOf_append, Journal.shown_append, List.filter_append, hemits.shown, emissionsOf,
        emissionsOf, ticksOf_append, flushesOf_append, hemits.flushed hover, journalOf_singleton]
      by_cases hi : i = m
      · simp [Event.entry, ticksOf, Event.tick?, hi, hclient.mpr hi, flushesOf, Event.flushed?]
      · have hother : ¬s.client = c := fun heq => hi (hclient.mp heq)
        simp [Event.entry, ticksOf, Event.tick?, hi, hother, flushesOf, Event.flushed?]
  | stop runs =>
    exact hnothing (fun _ => by rw [runs]; exact fun hover => by cases hover) rfl rfl rfl
  | @flush clean since left drains =>
    have hover : ¬e.status.isOver := by
      rw [drains]
      exact fun hover => by cases hover
    refine ⟨fun hnot => absurd rfl hnot, ?_⟩
    rw [journalOf_append, Journal.shown_append, List.filter_append, hemits.shown, emissionsOf,
      emissionsOf, ticksOf_append, flushesOf_append, hemits.flushed hover, journalOf_singleton]
    simp [Event.entry, ticksOf, Event.tick?, flushesOf, Event.flushed?]
  | flushFails drains =>
    exact hnothing (fun _ => by rw [drains]; exact fun hover => by cases hover) rfl rfl rfl
  | sendFlushed flushes | finish flushes =>
    exact hnothing (fun hnot _ => hnot rfl) rfl rfl rfl
  | _ => exact hnothing id rfl rfl rfl

/-! ### Every run -/

section Runs

variable {config : EngineConfig} {profiles : List Profile} {as : List Action} {events : List Event}

/-- A monitor emits the snapshots of its client. -/
theorem run?_emits (accepted : Engine.check profiles = .ok ()) (found : profiles[m]? = some p)
    (h : (start config profiles).run? as = some (e, events)) : e.Emits m p.id events := by
  refine run?_induction_along (motive := fun mid told => mid.Emits m p.id told) h
    ⟨fun _ => rfl, rfl⟩ fun hbefore hmid hsteps => ?_
  obtain ⟨hnodup, hown⟩ := run?_nodup accepted hbefore
  exact hsteps.emits (run?_spent hbefore) hnodup (hown found) hmid

/-- What is on the board was cut. -/
theorem run?_shown (h : (start config profiles).run? as = some (e, events)) :
    ∀ s ∈ e.board, s ∈ (journalOf events).shown := by
  have hall : e.Shows (· ∈ (journalOf events).shown) := by
    refine run?_induction (motive := fun mid told => mid.Shows (· ∈ (journalOf told).shown)) h ?_ ?_
    · refine ⟨fun s hs => ?_, fun s hs => ?_, fun m hm s hs => ?_, fun s hs => ?_⟩
      · cases hs
      · cases hs
      -- At the start no monitor holds a snapshot.
      · obtain ⟨p, -, rfl⟩ := List.mem_map.mp hm
        rw [held_start] at hs
        cases hs
      · cases hs
    · intro mid next a told new hmid hstep
      rw [journalOf_append, Journal.shown_append]
      exact hstep.shows (hmid.mono fun s hs => List.mem_append_left _ hs)
        fun s hs => List.mem_append_right _ hs
  exact hall.board

/-- What is on the board of a client was shown, and in that order if nothing was left running at the
    end. -/
theorem run?_reported (accepted : Engine.check profiles = .ok ()) (found : profiles[m]? = some p)
    (h : (start config profiles).run? as = some (e, events)) :
    (∀ s ∈ e.historyOf p.id, s ∈ emissionsOf m p.id events) ∧
      (e.status.isClean → e.historyOf p.id <+: emissionsOf m p.id events) := by
  have hemits := (run?_emits accepted found h).shown
  constructor
  · intro s hs
    obtain ⟨hboard, hclient⟩ := List.mem_filter.mp hs
    rw [← hemits]
    exact List.mem_filter.mpr ⟨run?_shown h s hboard, hclient⟩
  · intro hclean
    -- The board comes first among all that is under way.
    rw [← hemits, ← run?_order accepted h hclean]
    refine List.IsPrefix.filter _ ?_
    simp only [underWay, List.append_assoc]
    exact List.prefix_append _ _

end Runs

/-! ### The last window -/

/-- A run that waits has taken all ticks that were due. -/
theorem OnGrid.lt_of_waits (h : e.OnGrid m p told) (hruns : e.status = .running)
    (hroom : 0 < e.room) (hwaits : e.Waits) {tick : Nat} (later : (ticksOf m told).length < tick)
    (hrange : tick * p.monitorPeriod.nanos < Clock.range) :
    e.now < gridPoint p.monitorPeriod tick := by
  obtain ⟨own, hown, -, hlength, hafter, hgoes, -⟩ := h.monitor
  have hmem := List.mem_of_getElem? hown
  cases hphase : own.phase with
  | waiting next =>
    rw [hphase] at hafter
    -- The next tick is the first that has not been taken, so none later has been due.
    obtain rfl : next = (ticksOf m told).length + 1 := hafter
    have hless : ((ticksOf m told).length + 1) * p.monitorPeriod.nanos < Clock.range :=
      Nat.lt_of_le_of_lt (Nat.mul_le_mul_right _ later) hrange
    have hnot := hwaits.not_due hmem
    rw [Monitor.isDue, Monitor.wake?, hphase, hlength] at hnot
    simp only [Monitor.tickAt, Clock.fire, if_pos hless, decide_eq_false_iff_not,
      Nat.not_le] at hnot
    exact Nat.lt_of_lt_of_le hnot (gridPoint_mono _ later)
  | sending next s => exact absurd hphase (hwaits.not_sending hroom hmem next s)
  | parked => rw [hphase] at hafter; exact hafter.elim
  | stopped => exact absurd hphase (hgoes hruns)

/-- A window that was flushed after so many ticks, in a run that was told to end at `mid`. -/
structure LastWindow (period : Span) (ticks : Nat) (mid : Engine) (s : Snapshot) : Prop where
  /-- It starts at a point of the grid that was reached, -/
  start : s.start.nanos = gridPoint period ticks
  reached : gridPoint period ticks ≤ mid.now
  /-- which is the last one: no later one had passed, and none had come if all was done that was
      due. -/
  last : ∀ tick, ticks < tick → mid.now ≤ gridPoint period tick ∧
    (mid.Waits → tick * period.nanos < Clock.range → mid.now < gridPoint period tick)
  /-- It ends at the instant at which the run was told to end. -/
  stop : s.stop.nanos = mid.now

/-- What is flushed of a client is its last window. -/
theorem lastWindow_of_flush {config : EngineConfig} {profiles : List Profile}
    (accepted : Engine.check profiles = .ok ()) (found : profiles[m]? = some p)
    (hticks : Monitor.ticks p.monitorPeriod = true) {as₁ as₂ : List Action} {mid : Engine}
    {before told later : List Event} {shown : List Snapshot}
    (hbefore : (start config profiles).run? as₁ = some (mid, before))
    (hafter : mid.run? (.stop true :: as₂) = some (e, told ++ .flushed shown :: later))
    (hontime : (start config profiles).OnTime (as₁ ++ .stop true :: as₂)) {s : Snapshot}
    (hs : s ∈ shown) (hclient : s.client = p.id) :
    LastWindow p.monitorPeriod (ticksOf m (before ++ told)).length mid s := by
  have hruns := (toldAt_of_stop hafter).1
  obtain ⟨hmidtime, hlast⟩ := (onTime_append hbefore).mp hontime
  -- The run up to the flush is on time as well.
  obtain ⟨bs₁, bs₂, a, f, next, hactions, hrun, hflush, -⟩ := run?_split hafter
  have hwhole := run?_append hbefore hrun
  rw [hactions] at hlast
  have hftime := (onTime_append hbefore).mpr ⟨hmidtime, ((onTime_append hrun).mp hlast).1⟩
  have hgrid := run?_onGrid accepted found hticks hwhole hftime
  have hmid := run?_onGrid accepted found hticks hbefore hmidtime
  cases hflush with
  | @flush clean since left drains ripe kept =>
    -- The actions up to the flush begin with the order to end.
    have hnow : f.now = mid.now := by
      cases bs₁ with
      | nil =>
        cases hrun
        rw [hruns] at drains
      | cons b rest =>
        obtain ⟨rfl, -⟩ := List.cons.inj hactions
        have hsince := (toldAt_of_stop hrun).2
        rw [ToldAt, drains] at hsince
        exact (now_of_draining hwhole hftime drains).trans hsince
    obtain ⟨hbegan, hstop⟩ := Ledger.stamps_of_flush (run?_books hwhole).keeps.ascending kept hs
    have hearlier : ¬f.status.isOver := by
      rw [drains]
      exact fun hover => by cases hover
    obtain ⟨start, hstart, hpoint⟩ := hgrid.opened hearlier
    rw [hclient, hstart, Option.some.injEq] at hbegan
    rw [hbegan] at hpoint
    have hreached := hgrid.reached
    rw [hnow] at hreached
    have hreading : f.reading.nanos = f.now := nanos_reading (run?_books hwhole).now_le
    obtain ⟨own, -, -, -, -, -, hbound⟩ := hgrid.monitor
    have hnext := hbound (Or.inr ⟨since, drains⟩)
    rw [hnow] at hnext
    refine ⟨hpoint, hreached, fun tick hlater => ⟨?_, fun hwaits hrange => ?_⟩, ?_⟩
    · exact Nat.le_trans hnext (gridPoint_mono _ hlater)
    · have hless : (ticksOf m before).length < tick := by
        refine Nat.lt_of_le_of_lt ?_ hlater
        rw [ticksOf_append, List.length_append]
        exact Nat.le_add_right _ _
      exact hmid.lt_of_waits hruns (run?_room hbefore) hwaits hless hrange
    · rw [hstop, Span.nanos_max, hpoint, hreading, hnow]
      exact Nat.max_eq_left hreached

/-- **The windows of a client lie on the grid of its period.** For accepted profiles and a period
    that ticks, whatever the others are: in every run on time the ticks of the client are numbered
    from one on, and each shows the window from the point of the tick before to its own. What is
    reported of the client was shown by a tick or by the flush, in this order if the end was clean.
    A flushed window starts at the last point that was reached when the run was told to end, and
    ends at that instant. Every simulation is on time, and has done all that is due when its owner
    has let time pass. -/
theorem windows_on_grid {config : EngineConfig} {profiles : List Profile}
    (accepted : Engine.check profiles = .ok ()) (found : profiles[m]? = some p)
    (hticks : Monitor.ticks p.monitorPeriod = true) :
    (∀ {as : List Action} {e : Engine} {events : List Event},
      (start config profiles).run? as = some (e, events) → (start config profiles).OnTime as →
        Gridded p.monitorPeriod (ticksOf m events) ∧
          (∀ s ∈ e.historyOf p.id, s ∈ emissionsOf m p.id events) ∧
            (e.status.isClean → e.historyOf p.id <+: emissionsOf m p.id events)) ∧
    (∀ {as₁ as₂ : List Action} {mid e : Engine} {before told later : List Event}
        {shown : List Snapshot},
      (start config profiles).run? as₁ = some (mid, before) →
      mid.run? (.stop true :: as₂) = some (e, told ++ .flushed shown :: later) →
      (start config profiles).OnTime (as₁ ++ .stop true :: as₂) →
        ∀ s ∈ shown, s.client = p.id →
          LastWindow p.monitorPeriod (ticksOf m (before ++ told)).length mid s) ∧
    ∀ {b : Behaviour} {s s' : Simulation b} {target fuel : Nat},
      s.Driven b config profiles → Simulation.runUntil target fuel s = some s' →
        (start config profiles).Punctually s'.engine ∧
          (s'.engine.isRunning = true → s'.engine.Waits) := by
  -- The parts are about ticks and reports, about the flush and about simulations.
  refine ⟨fun hrun hontime => ⟨(run?_onGrid accepted found hticks hrun hontime).gridded,
    run?_reported accepted found hrun⟩, fun hbefore hafter hontime _ hs hclient =>
      lastWindow_of_flush accepted found hticks hbefore hafter hontime hs hclient, ?_⟩
  intro b s s' target fuel hdriven hslept
  obtain ⟨hhanded, hontime⟩ := (Simulation.Driven.sleeps hdriven hslept).punctually
  exact ⟨hontime, fun hruns => Simulation.waits_of_isRunning hhanded hruns
    (Simulation.goes_of_runUntil hslept).next?_eq_none⟩

/-- A client with a period that is not a whole number of milliseconds. -/
def offbeat : Profile :=
  { Profile.blank 3 "a" with thinkTime := 0.001, monitorInterval := 0.0025 }

/-- The profile is accepted. -/
theorem check_offbeat : Engine.check [offbeat] = .ok () := by
  rw [Engine.check, validateAll_ok_iff]
  refine ⟨fun p hp => ?_, by decide⟩
  rw [List.mem_singleton.mp hp, Profile.validate_ok_iff]
  decide +kernel

/-- Calls of a millisecond, and a run that is told to end after seven: two ticks and a last window
    that starts at the second. -/
theorem windows_on_grid_offbeat :
    Engine.check [offbeat] = .ok () ∧ Monitor.ticks offbeat.monitorPeriod = true ∧
      ∃ (as₁ as₂ : List Action) (mid e : Engine) (before told later : List Event)
        (shown : List Snapshot) (s : Snapshot),
        (start (.standard 1) [offbeat]).run? as₁ = some (mid, before) ∧
          mid.run? (.stop true :: as₂) = some (e, told ++ .flushed shown :: later) ∧
            (start (.standard 1) [offbeat]).OnTime (as₁ ++ .stop true :: as₂) ∧ mid.Waits ∧
              (e.historyOf 3).map (fun s => (s.start.nanos, s.stop.nanos)) =
                [(0, 3000000), (3000000, 5000000), (5000000, 7000000)] ∧
              Gridded offbeat.monitorPeriod (ticksOf 0 before) ∧
              s ∈ shown ∧ s ∈ e.historyOf 3 ∧ s.start.nanos = 5000000 ∧
                LastWindow offbeat.monitorPeriod (ticksOf 0 (before ++ told)).length mid s := by
  have accepted := check_offbeat
  have hticks : Monitor.ticks offbeat.monitorPeriod = true := by decide +kernel
  obtain ⟨hgrid, hlast, hsimulated⟩ :=
    @windows_on_grid 0 offbeat (.standard 1) [offbeat] accepted rfl hticks
  -- The owner lets seven milliseconds pass and tells the run to end.
  have hrun : (Simulation.runUntil 7000000 100 (Simulation.start
      ((MockEndpoint.fixed (Span.ofMillis 1)).behaviour 1) (.standard 1) [offbeat])).any fun s' =>
        decide (s'.engine.isRunning = true) &&
          (Simulation.runUntil s'.engine.now 20 (s'.told true)).any fun last =>
            decide ((last.engine.historyOf 3).map (fun s => (s.start.nanos, s.stop.nanos)) =
              [(0, 3000000), (3000000, 5000000), (5000000, 7000000)]) := by decide +kernel
  obtain ⟨s', hs', hrun⟩ := (Option.any_eq_true _ _).mp hrun
  rw [Bool.and_eq_true, decide_eq_true_eq] at hrun
  obtain ⟨hruns, hrun⟩ := hrun
  obtain ⟨last, hlast', hshown⟩ := (Option.any_eq_true _ _).mp hrun
  rw [decide_eq_true_eq] at hshown
  obtain ⟨⟨as₁, before, hbefore, hfirst⟩, hwaits⟩ := hsimulated .start hs'
  obtain ⟨as₂, after, hafter, hsecond⟩ := (Simulation.Driven.sleeps .start hs').stopped hruns hlast'
  have hontime := (onTime_append hbefore).mpr ⟨hfirst, hsecond⟩
  -- The last window does not end at a point of the grid, so it was flushed.
  obtain ⟨s, hs, hstart, hstop⟩ : ∃ s ∈ last.engine.historyOf 3,
      s.start.nanos = 5000000 ∧ s.stop.nanos = 7000000 := by
    have hmem : (5000000, 7000000) ∈
        (last.engine.historyOf 3).map fun s => (s.start.nanos, s.stop.nanos) := by
      rw [hshown]
      decide
    obtain ⟨s, hs, heq⟩ := List.mem_map.mp hmem
    exact ⟨s, hs, congrArg Prod.fst heq, congrArg Prod.snd heq⟩
  obtain ⟨hwhole, hreported, -⟩ := hgrid (run?_append hbefore hafter) hontime
  rcases List.mem_append.mp (hreported s hs) with htick | hflushed
  · obtain ⟨⟨tick, shown⟩, hmem, rfl⟩ := List.mem_filterMap.mp htick
    obtain ⟨-, -, hpoint⟩ := hwhole.windows tick s hmem
    have hperiod : offbeat.monitorPeriod.nanos = 2500000 := by decide +kernel
    rw [hstop, gridPoint, Clock.ceilTick, Clock.tick, hperiod] at hpoint
    omega
  · -- Nothing was flushed before the stop.
    have hnone : flushesOf before = [] := by
      refine (run?_emits (m := 0) accepted rfl hbefore).flushed fun hover => ?_
      rw [status_of_isRunning hruns] at hover
      cases hover
    rw [flushesOf_append, hnone, List.nil_append] at hflushed
    obtain ⟨shown, hmem, hs'⟩ := List.mem_flatten.mp (List.mem_filter.mp hflushed).1
    obtain ⟨event, hevent, heq⟩ := List.mem_filterMap.mp hmem
    obtain ⟨told, later, rfl⟩ := List.append_of_mem hevent
    obtain rfl : event = .flushed shown := by
      cases event <;> cases heq
      rfl
    exact ⟨accepted, hticks, as₁, as₂, s'.engine, last.engine, before, told, later, shown, s,
      hbefore, hafter, hontime, hwaits hruns, hshown, (hgrid hbefore hfirst).1, hs', hs, hstart,
      hlast hbefore hafter hontime s hs' (of_decide_eq_true (List.mem_filter.mp hflushed).2)⟩

end Engine

end ClosedLoop
