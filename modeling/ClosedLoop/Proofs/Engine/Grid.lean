import ClosedLoop.Proofs.Engine.Stopping
import ClosedLoop.Proofs.Stats.Closing

namespace ClosedLoop

/-!
# The grid of a period

A monitor awaits its ticks one after the other, and on a run on time it cuts its window exactly when
a tick fires. So every window of a client begins and ends at points of the grid of its period, but
the last one, which ends when the run is told to end.

* `gridPoint` — the first whole millisecond that is not before so many periods;
* `ticksOf` — the ticks of a monitor, each with what it showed;
* `Engine.OnGrid`, `Engine.Steps.onGrid` — the monitor has taken its ticks in order and the open
  window began with the last of them, which every step on time keeps;
* `Engine.run?_onGrid` — so it is after every run on time.
-/

/-- The point of the grid of a period that belongs to a tick: the first whole millisecond that is
    not before so many periods. -/
def gridPoint (period : Span) (tick : Nat) : Nat := Clock.ceilTick (tick * period.nanos)

/-- The points of a grid ascend. -/
theorem gridPoint_mono (period : Span) {j k : Nat} (h : j ≤ k) :
    gridPoint period j ≤ gridPoint period k := by
  have hmul : j * period.nanos ≤ k * period.nanos := Nat.mul_le_mul_right _ h
  unfold gridPoint Clock.ceilTick
  exact Nat.mul_le_mul_right _ (Nat.div_le_div_right (Nat.add_le_add_right hmul _))

/-- The grid starts when the run does. -/
theorem gridPoint_zero (period : Span) : gridPoint period 0 = 0 := by
  rw [gridPoint, Nat.zero_mul]
  rfl

/-- A tick that fires does so at its point of the grid. -/
theorem eq_gridPoint_of_tickAt {period : Span} {tick t : Nat}
    (h : Monitor.tickAt period tick = some t) : t = gridPoint period tick := by
  unfold Monitor.tickAt Clock.fire at h
  split at h
  · cases h
    rfl
  · cases h

/-- A tick that never fires has a point beyond the range of the clock. -/
theorem range_le_gridPoint {period : Span} {tick : Nat} (h : Monitor.tickAt period tick = none) :
    Clock.range ≤ gridPoint period tick := by
  unfold Monitor.tickAt Clock.fire at h
  split at h
  · cases h
  · rename_i hbeyond
    exact Nat.le_trans (Nat.not_lt.mp hbeyond) (Clock.le_ceilTick _)

/-! ### Ticks -/

/-- The tick of a monitor that an event tells of, with what it showed. -/
def Event.tick? (m : Nat) : Event → Option (Nat × Option Snapshot)
  | .ticked n tick shown => if n = m then some (tick, shown) else none
  | _ => none

/-- The ticks of a monitor, each with what it showed. -/
def ticksOf (m : Nat) (events : List Event) : List (Nat × Option Snapshot) :=
  events.filterMap (Event.tick? m)

@[simp] theorem ticksOf_nil (m : Nat) : ticksOf m [] = [] := rfl

@[simp] theorem ticksOf_append (m : Nat) (before after : List Event) :
    ticksOf m (before ++ after) = ticksOf m before ++ ticksOf m after :=
  List.filterMap_append

/-- The ticks are numbered from one on, and what they show goes from the point of the tick before to
    the point of the tick. -/
structure Gridded (period : Span) (ticks : List (Nat × Option Snapshot)) : Prop where
  numbered : ticks.map Prod.fst = List.range' 1 ticks.length
  windows : ∀ tick s, (tick, some s) ∈ ticks → 1 ≤ tick ∧
    s.start.nanos = gridPoint period (tick - 1) ∧ s.stop.nanos = gridPoint period tick

/-- Without a tick there is nothing to be off the grid. -/
theorem gridded_nil (period : Span) : Gridded period [] :=
  ⟨rfl, fun _ _ h => absurd h List.not_mem_nil⟩

/-- One more tick. -/
theorem Gridded.append {period : Span} {ticks : List (Nat × Option Snapshot)}
    (h : Gridded period ticks) {shown : Option Snapshot}
    (hshown : ∀ s, shown = some s → s.start.nanos = gridPoint period ticks.length ∧
      s.stop.nanos = gridPoint period (ticks.length + 1)) :
    Gridded period (ticks ++ [(ticks.length + 1, shown)]) where
  numbered := by
    rw [List.map_append, h.numbered, List.length_append, List.length_singleton,
      List.range'_concat, Nat.one_mul, Nat.add_comm 1]
    rfl
  windows tick s hmem := by
    rcases List.mem_append.mp hmem with hold | hnew
    · exact h.windows tick s hold
    · obtain ⟨rfl, hs⟩ := Prod.mk.inj (List.mem_singleton.mp hnew)
      obtain ⟨hstart, hstop⟩ := hshown s hs.symm
      exact ⟨Nat.le_add_left 1 _, hstart, hstop⟩

/-- What a monitor does after so many ticks: it awaits the next one. -/
def MonitorPhase.After (n : Nat) : MonitorPhase → Prop
  | .waiting tick => tick = n + 1
  | .sending tick _ => tick = n + 1
  | .parked => False
  | .stopped => True

namespace Engine

variable {e e' : Engine} {a : Action} {told new : List Event} {m : Nat} {p : Profile}

/-- A flush leaves a ledger with nothing to show, and so it stays. -/
theorem Steps.spent (h : Steps e a e' new) (hspent : e.status.isOver → e.ledger.Spent)
    (hover : e'.status.isOver) : e'.ledger.Spent := by
  cases h with
  | record found turn kept | crash found turn kept =>
    show (e.ledger.record _).1.Spent
    rw [(hspent hover).record]
    exact hspent hover
  | cutNothing | cut | cutFails => exact ((hspent hover).take _ _).1
  | stop | flushFails => cases hover
  | flush drains ripe kept => exact Ledger.spent_flush kept
  | sendFlushed flushes | finish flushes => exact hspent (by rw [flushes]; rfl)
  | _ => exact hspent hover

/-- After the flush every window is spent. -/
theorem run?_spent {config : EngineConfig} {profiles : List Profile} {as : List Action}
    {events : List Event} (h : (start config profiles).run? as = some (e, events))
    (hover : e.status.isOver) : e.ledger.Spent :=
  run?_induction (motive := fun mid _ => mid.status.isOver → mid.ledger.Spent) h
    (fun hover => by cases hover) (fun hmid hstep => hstep.spent hmid) hover

/-- Every client has one monitor. -/
theorem client_eq_iff {c : ClientId} (hnodup : (e.monitors.map Monitor.client).Nodup)
    (hown : (e.monitors.map Monitor.client)[m]? = some c) {i : Nat} {monitor : Monitor}
    (found : e.monitors[i]? = some monitor) : monitor.client = c ↔ i = m := by
  have hclient : (e.monitors.map Monitor.client)[i]? = some monitor.client := by
    rw [List.getElem?_map, found]
    rfl
  constructor
  · rintro rfl
    exact (List.getElem?_inj (List.getElem?_eq_some_iff.mp hclient).1 hnodup).mp
      (hclient.trans hown.symm)
  · rintro rfl
    exact Option.some.inj (hclient.symm.trans hown)

/-- The monitor of a client has taken its ticks in order, and the open window of the client began
    with the last of them. The next tick is still to come. -/
structure OnGrid (m : Nat) (p : Profile) (e : Engine) (told : List Event) : Prop where
  gridded : Gridded p.monitorPeriod (ticksOf m told)
  reached : gridPoint p.monitorPeriod (ticksOf m told).length ≤ e.now
  monitor : ∃ monitor, e.monitors[m]? = some monitor ∧ monitor.client = p.id ∧
    monitor.period = p.monitorPeriod ∧ monitor.phase.After (ticksOf m told).length ∧
      (e.status = .running → monitor.phase ≠ .stopped) ∧
        (monitor.phase ≠ .stopped ∨ (∃ since, e.status = .draining true since) →
          e.now ≤ gridPoint p.monitorPeriod ((ticksOf m told).length + 1))
  opened : ¬e.status.isOver → ∃ start, e.ledger.startOf? p.id = some start ∧
    start.nanos = gridPoint p.monitorPeriod (ticksOf m told).length

/-- At the start the first tick is awaited. -/
theorem onGrid_start {config : EngineConfig} {profiles : List Profile}
    (found : profiles[m]? = some p) (hticks : Monitor.ticks p.monitorPeriod = true) :
    (start config profiles).OnGrid m p [] where
  gridded := gridded_nil _
  reached := by
    rw [ticksOf_nil, List.length_nil, gridPoint_zero]
    exact Nat.zero_le _
  monitor := by
    -- With a period that ticks the monitor starts by awaiting its first tick.
    have hphase : (Monitor.start p).phase = .waiting 1 := by rw [Monitor.start, if_pos hticks]
    refine ⟨Monitor.start p, ?_, rfl, rfl, ?_, fun _ hstopped => ?_, fun _ => Nat.zero_le _⟩
    · rw [start, List.getElem?_map, found]
      rfl
    · rw [hphase]
      rfl
    · rw [hphase] at hstopped
      cases hstopped
  opened _ := by
    refine ⟨Span.zero, Ledger.startOf?_openFor (List.mem_of_getElem? found), ?_⟩
    rw [ticksOf_nil, List.length_nil, gridPoint_zero]
    rfl

/-- What does not concern the monitor or its window leaves everything on the grid. -/
theorem OnGrid.keep (h : e.OnGrid m p told) (hnow : e'.now = e.now)
    (hmonitor : e'.monitors[m]? = e.monitors[m]?)
    (hruns : e'.status = .running → e.status = .running)
    (hdrains : (∃ since, e'.status = .draining true since) →
      ∃ since, e.status = .draining true since)
    (hover : e'.status.isOver = e.status.isOver)
    (hstart : e'.ledger.startOf? p.id = e.ledger.startOf? p.id)
    (hnone : ticksOf m new = []) :
    e'.OnGrid m p (told ++ new) := by
  have htold : ticksOf m (told ++ new) = ticksOf m told := by
    rw [ticksOf_append, hnone, List.append_nil]
  obtain ⟨own, hown, hid, hlength, hafter, hgoes, hbound⟩ := h.monitor
  refine ⟨?_, ?_, ?_, ?_⟩
  · rw [htold]
    exact h.gridded
  · rw [htold, hnow]
    exact h.reached
  · rw [htold, hmonitor, hnow]
    exact ⟨own, hown, hid, hlength, hafter, fun hrunning => hgoes (hruns hrunning),
      fun hgoing => hbound (hgoing.imp_right hdrains)⟩
  · rw [htold, hover, hstart]
    exact h.opened

/-- A monitor that goes on to await the same tick stays on the grid. -/
theorem OnGrid.setMonitor (h : e.OnGrid m p told) {i : Nat} {monitor next : Monitor}
    (found : e.monitors[i]? = some monitor) (hclient : next.client = monitor.client)
    (hperiod : next.period = monitor.period)
    (hphase : ∀ n, monitor.phase.After n → next.phase.After n)
    (hstopped : next.phase ≠ .stopped ∨ e.isRunning = false)
    (hgoes : monitor.phase ≠ .stopped) : (e.setMonitor i next).OnGrid m p told where
  gridded := h.gridded
  reached := h.reached
  monitor := by
    obtain ⟨own, hown, hid, hlength, hafter, hruns, hbound⟩ := h.monitor
    by_cases hi : i = m
    · subst hi
      rw [found, Option.some.injEq] at hown
      subst hown
      -- The monitor is this one, or another one that this one does not see.
      have hlt : i < e.monitors.length := (List.getElem?_eq_some_iff.mp found).1
      refine ⟨next, List.getElem?_set_self hlt, hclient.trans hid, hperiod.trans hlength,
        hphase _ hafter, fun hrunning => ?_, fun _ => hbound (Or.inl hgoes)⟩
      rcases hstopped with hgoing | hnot
      · exact hgoing
      · have hstatus : e.status = .running := hrunning
        rw [isRunning, hstatus] at hnot
        cases hnot
    · exact ⟨own, (List.getElem?_set_ne hi).trans hown, hid, hlength, hafter, hruns, hbound⟩
  opened := h.opened

/-- The awaited tick of the monitor is the next one, and fires at its point of the grid. -/
theorem OnGrid.due (h : e.OnGrid m p told) {monitor : Monitor} {tick : Nat}
    (found : e.monitors[m]? = some monitor) (waits : monitor.phase = .waiting tick)
    (due : monitor.isDue e.now) :
    monitor.client = p.id ∧ tick = (ticksOf m told).length + 1 ∧
      e.now = gridPoint p.monitorPeriod ((ticksOf m told).length + 1) := by
  obtain ⟨own, hown, hid, hlength, hafter, -, hbound⟩ := h.monitor
  rw [found, Option.some.injEq] at hown
  subst hown
  rw [waits] at hafter
  have htick : tick = (ticksOf m told).length + 1 := hafter
  have hnow := hbound (Or.inl (by rw [waits]; exact fun hne => by cases hne))
  rw [Monitor.isDue, Monitor.wake?, waits] at due
  -- The tick has fired, and it was not missed.
  cases hwake : Monitor.tickAt monitor.period tick with
  | none => simp only [hwake] at due; cases due
  | some t =>
    simp only [hwake, decide_eq_true_eq] at due
    have hpoint := eq_gridPoint_of_tickAt hwake
    rw [hlength, htick] at hpoint
    exact ⟨hid, htick, by omega⟩

/-- A cut of the window of the client takes the next tick. -/
theorem OnGrid.cut (h : e.OnGrid m p told) (phase : MonitorPhase) (hrange : e.now ≤ Clock.range)
    (hspent : e.status.isOver → e.ledger.Spent) {monitor : Monitor} {tick : Nat}
    {shown : Option Snapshot} (found : e.monitors[m]? = some monitor)
    (waits : monitor.phase = .waiting tick)
    (due : monitor.isDue e.now) (kept : (e.ledger.take e.reading monitor.client).2 = .ok shown)
    (hafter : phase.After tick) (hgoes : phase ≠ .stopped) :
    ({ e with ledger := (e.ledger.take e.reading monitor.client).1 }.setMonitor m
      { monitor with phase }).OnGrid m p (told ++ [Event.ticked m tick shown]) := by
  obtain ⟨hid, htick, hnow⟩ := h.due found waits due
  obtain ⟨own, hown, -, hlength, -, -, -⟩ := h.monitor
  rw [found, Option.some.injEq] at hown
  subst hown
  have hreading : e.reading.nanos = e.now := nanos_reading hrange
  have hlt : m < e.monitors.length := (List.getElem?_eq_some_iff.mp found).1
  have htold : ticksOf m (told ++ [Event.ticked m tick shown]) =
      ticksOf m told ++ [((ticksOf m told).length + 1, shown)] := by
    rw [ticksOf_append, ← htick]
    simp [ticksOf, Event.tick?]
  rw [hid] at kept
  refine ⟨?_, ?_, ⟨{ monitor with phase }, List.getElem?_set_self hlt, hid, hlength, ?_,
    fun _ => hgoes, fun _ => ?_⟩, fun hover => ?_⟩
  · rw [htold]
    refine h.gridded.append fun s hs => ?_
    subst hs
    by_cases hover : e.status.isOver
    · -- After the flush there is nothing to show.
      rw [((hspent hover).take e.reading p.id).2.2] at kept
      cases kept
    -- The window was opened at the point before, and closes at this one.
    · obtain ⟨start, hstart, hpoint⟩ := h.opened hover
      obtain ⟨hbegan, hstop⟩ := Ledger.stamps_of_take kept
      rw [hstart, Option.some.injEq] at hbegan
      have hmono := gridPoint_mono p.monitorPeriod (Nat.le_succ (ticksOf m told).length)
      rw [← hbegan, hstop, Span.nanos_max, ← hbegan, hpoint, hreading, hnow]
      exact ⟨rfl, Nat.max_eq_left hmono⟩
  · rw [htold, List.length_append, List.length_singleton]
    exact Nat.le_of_eq hnow.symm
  · rw [htold, List.length_append, List.length_singleton, ← htick]
    exact hafter
  · rw [htold, List.length_append, List.length_singleton]
    show e.now ≤ _
    rw [hnow]
    exact gridPoint_mono _ (Nat.le_succ _)
  -- The new window opens where the old one ended.
  · obtain ⟨start, hstart, -⟩ := h.opened hover
    rw [htold, List.length_append, List.length_singleton, ← hnow, ← hreading]
    refine ⟨e.reading, ?_, rfl⟩
    show (e.ledger.take e.reading monitor.client).1.startOf? p.id = _
    rw [hid]
    exact Ledger.startOf?_take hstart

/-- A cut of another window leaves the one of the client alone. -/
theorem OnGrid.cut_of_ne (h : e.OnGrid m p told) {i tick : Nat} {monitor next : Monitor}
    {shown : Option Snapshot} (hclient : monitor.client ≠ p.id) (hi : i ≠ m) :
    ({ e with ledger := (e.ledger.take e.reading monitor.client).1 }.setMonitor i next).OnGrid m p
      (told ++ [Event.ticked i tick shown]) := by
  refine h.keep rfl (List.getElem?_set_ne hi) id id rfl (Ledger.startOf?_take_of_ne hclient) ?_
  simp [ticksOf, Event.tick?, hi]

/-- A tick of any monitor keeps the windows on the grid. -/
theorem OnGrid.ticks (h : e.OnGrid m p told) (phase : MonitorPhase) (hrange : e.now ≤ Clock.range)
    (hspent : e.status.isOver → e.ledger.Spent) {i tick : Nat} {monitor : Monitor}
    {shown : Option Snapshot} (hmonitor : monitor.client = p.id ↔ i = m)
    (found : e.monitors[i]? = some monitor) (waits : monitor.phase = .waiting tick)
    (due : monitor.isDue e.now) (kept : (e.ledger.take e.reading monitor.client).2 = .ok shown)
    (hafter : phase.After tick) (hgoes : phase ≠ .stopped) :
    ({ e with ledger := (e.ledger.take e.reading monitor.client).1 }.setMonitor i
      { monitor with phase }).OnGrid m p (told ++ [Event.ticked i tick shown]) := by
  by_cases hi : i = m
  · subst hi
    exact h.cut phase hrange hspent found waits due kept hafter hgoes
  · exact h.cut_of_ne (fun hid => hi (hmonitor.mp hid)) hi

/-- The order to end changes nothing about the ticks. -/
theorem OnGrid.stop (h : e.OnGrid m p told) (runs : e.status = .running) (flushes : Bool) :
    ({ e with status := .draining flushes e.now } : Engine).OnGrid m p told where
  gridded := h.gridded
  reached := h.reached
  monitor := by
    obtain ⟨own, hown, hid, hlength, hafter, hruns, hbound⟩ := h.monitor
    have hgoes : own.phase ≠ .stopped := hruns runs
    exact ⟨own, hown, hid, hlength, hafter, (fun hne => by cases hne),
      fun _ => hbound (Or.inl hgoes)⟩
  opened _ := by
    refine h.opened ?_
    rw [runs]
    exact fun hover => by cases hover

/-- After the flush no window is open any more. -/
theorem OnGrid.flush (h : e.OnGrid m p told) {ledger : Ledger} {clean : Bool}
    {left : List Snapshot} :
    ({ e with ledger, status := .flushing clean e.now left } : Engine).OnGrid m p
      (told ++ [.flushed left]) := by
  have htold : ticksOf m (told ++ [.flushed left]) = ticksOf m told := by
    rw [ticksOf_append]
    exact List.append_nil _
  obtain ⟨own, hown, hid, hlength, hafter, -, hbound⟩ := h.monitor
  refine ⟨htold ▸ h.gridded, htold ▸ h.reached, ⟨own, hown, hid, hlength, htold ▸ hafter,
    (fun hne => by cases hne), fun hgoing => ?_⟩, fun hnot => absurd rfl hnot⟩
  rw [htold]
  rcases hgoing with hgoes | ⟨since, hstatus⟩
  · exact hbound (Or.inl hgoes)
  · cases hstatus

/-- Time passes only to the next tick. -/
theorem OnGrid.advance (h : e.OnGrid m p told) {target : Nat} (later : e.now ≤ target)
    (range : target ≤ Clock.range) (hpass : e.MayPass target) (hroom : 0 < e.room)
    (hdrains : ∀ since, e.status ≠ .draining true since) :
    ({ e with now := target } : Engine).OnGrid m p told where
  gridded := h.gridded
  reached := Nat.le_trans h.reached later
  monitor := by
    obtain ⟨own, hown, hid, hlength, hafter, hruns, hbound⟩ := h.monitor
    have hmem := List.mem_of_getElem? hown
    refine ⟨own, hown, hid, hlength, hafter, hruns, fun hgoing => ?_⟩
    rcases hgoing with hgoes | ⟨since, hstatus⟩
    -- Until its next tick fires, a monitor keeps time from passing.
    · cases hphase : own.phase with
      | waiting tick =>
        rw [hphase] at hafter
        have htick : tick = (ticksOf m told).length + 1 := hafter
        have hwake : own.wake? = Monitor.tickAt own.period tick := by rw [Monitor.wake?, hphase]
        cases hfires : Monitor.tickAt own.period tick with
        | none =>
          have hbeyond := range_le_gridPoint hfires
          rw [hlength, htick] at hbeyond
          exact Nat.le_trans range hbeyond
        | some t =>
          have hle := hpass.monitors own hmem t (hwake.trans hfires)
          rw [eq_gridPoint_of_tickAt hfires, hlength, htick] at hle
          exact hle
      | sending tick s => exact absurd hphase (hpass.waits.not_sending hroom hmem tick s)
      | parked => rw [hphase] at hafter; exact hafter.elim
      | stopped => exact absurd hphase hgoes
    · exact absurd hstatus (hdrains since)
  opened := h.opened

/-- **Every step on time keeps the windows on the grid.** -/
theorem Steps.onGrid (h : Steps e a e' new) (htimely : e.Timely a) (hbooks : e.Books told)
    (hroom : 0 < e.room) (hspent : e.status.isOver → e.ledger.Spent)
    (hnodup : (e.monitors.map Monitor.client).Nodup)
    (hown : (e.monitors.map Monitor.client)[m]? = some p.id)
    (hdrains : ∀ since target, e.status = .draining true since → ¬e.MayPass target)
    (hgrid : e.OnGrid m p told) : e'.OnGrid m p (told ++ new) := by
  have hrange := hbooks.now_le
  cases h with
  | issue | reply | quit => exact hgrid.keep rfl rfl id id rfl rfl rfl
  | record | crash => exact hgrid.keep rfl rfl id id rfl (Ledger.startOf?_record _) rfl
  | @cutNothing i tick monitor found due waits kept =>
    have hmonitor := client_eq_iff hnodup hown found
    exact hgrid.ticks (.waiting (tick + 1)) hrange hspent hmonitor found waits due kept rfl
      fun hne => by cases hne
  | @cut i tick monitor s found due waits kept =>
    have hmonitor := client_eq_iff hnodup hown found
    exact hgrid.ticks (.sending (tick + 1) s) hrange hspent hmonitor found waits due kept rfl
      fun hne => by cases hne
  -- No cut fails while the books are right.
  | cutFails found due waits kept =>
    exact absurd kept (hbooks.take_ne_error _ _)
  | @send i tick monitor s room found holds =>
    have hpush : (e.push s).OnGrid m p (told ++ []) := hgrid.keep rfl rfl id id rfl rfl rfl
    refine hpush.setMonitor found rfl rfl (fun n hafter => ?_) (Or.inl fun hne => by cases hne) ?_
    · rw [holds] at hafter
      exact hafter
    · rw [holds]
      exact fun hne => by cases hne
  | @leave i monitor next hend found turn =>
    rw [List.append_nil]
    obtain ⟨hwaits, rfl⟩ := Monitor.quit?_eq_some turn
    refine hgrid.setMonitor found rfl rfl (fun _ _ => trivial) (Or.inr hend) fun hne => ?_
    rcases hwaits with ⟨tick, waits⟩ | parked
    · rw [waits] at hne
      cases hne
    · rw [parked] at hne
      cases hne
  | receive front => exact hgrid.keep rfl rfl id id rfl rfl rfl
  | @advance target later range =>
    rw [List.append_nil]
    have hpass := htimely target rfl
    exact hgrid.advance later range hpass hroom fun since hstatus =>
      hdrains since target hstatus hpass
  | stop runs =>
    rw [List.append_nil]
    exact hgrid.stop runs _
  | flush drains ripe kept => exact hgrid.flush
  | flushFails drains ripe kept =>
    exact absurd kept (hbooks.flush_ne_error _)
  | sendFlushed flushes room =>
    exact hgrid.keep rfl rfl (fun hne => by cases hne) (fun ⟨_, hne⟩ => by cases hne)
      (by rw [flushes]; rfl) rfl rfl
  | finish flushes drained left =>
    exact hgrid.keep rfl rfl (fun hne => by cases hne) (fun ⟨_, hne⟩ => by cases hne)
      (by rw [flushes]; rfl) rfl rfl

/-! ### Every run -/

section Runs

variable {config : EngineConfig} {profiles : List Profile} {as : List Action} {events : List Event}

/-- The monitors of a run of accepted profiles have different clients. -/
theorem run?_nodup (accepted : Engine.check profiles = .ok ())
    (h : (start config profiles).run? as = some (e, events)) :
    (e.monitors.map Monitor.client).Nodup ∧
      ∀ {m : Nat} {p : Profile}, profiles[m]? = some p →
        (e.monitors.map Monitor.client)[m]? = some p.id := by
  rw [run?_monitors_of_start h]
  refine ⟨((validateAll_ok_iff profiles).mp accepted).2, fun found => ?_⟩
  rw [List.getElem?_map, found]
  rfl

/-- While a run drains, it has something to do. -/
theorem not_mayPass_of_draining (h : (start config profiles).run? as = some (e, events))
    {since target : Nat} (drains : e.status = .draining true since) : ¬e.MayPass target := by
  intro hpass
  have hends : e.Ends := ⟨by rw [IsEnding, drains], ⟨e.now, run?_dated h⟩, run?_room h⟩
  have hreport := hends.report?_of_mayPass hpass
  rw [report?, drains] at hreport
  cases hreport

/-- **The windows of a run on time lie on the grid.** -/
theorem run?_onGrid (accepted : Engine.check profiles = .ok ()) (found : profiles[m]? = some p)
    (hticks : Monitor.ticks p.monitorPeriod = true)
    (h : (start config profiles).run? as = some (e, events))
    (ontime : (start config profiles).OnTime as) : e.OnGrid m p events := by
  refine run?_induction_onTime (motive := fun mid told => mid.OnGrid m p told) h ontime
    (onGrid_start found hticks) fun hbefore hmid hsteps htimely => ?_
  obtain ⟨hnodup, hown⟩ := run?_nodup accepted hbefore
  exact hsteps.onGrid htimely (run?_books hbefore) (run?_room hbefore) (run?_spent hbefore) hnodup
    (hown found) (fun _ _ drains => not_mayPass_of_draining hbefore drains) hmid

/-- No time passes while a run drains. -/
theorem now_of_draining (h : (start config profiles).run? as = some (e, events))
    (ontime : (start config profiles).OnTime as) {since : Nat}
    (drains : e.status = .draining true since) : e.now = since := by
  refine run?_induction_onTime (motive := fun mid _ => ∀ since, mid.status = .draining true since →
    mid.now = since) h ontime (fun _ hstatus => by cases hstatus) ?_ since drains
  intro before mid next a told new hbefore hmid hsteps htimely since hstatus
  cases hsteps with
  | advance => exact absurd (htimely _ rfl) (not_mayPass_of_draining hbefore hstatus)
  | stop => cases hstatus; rfl
  | flush | flushFails | sendFlushed | finish => cases hstatus
  | _ => exact hmid since hstatus

end Runs

end Engine

end ClosedLoop
