import ClosedLoop.Proofs.Clock
import ClosedLoop.Proofs.Engine.Rounds
import ClosedLoop.Proofs.Engine.Stopping
import ClosedLoop.Proofs.Engine.Uniform

namespace ClosedLoop

/-!
# Every instant comes

Where a round of an instance takes time, only so much can happen up to an instant: an instance that
issues a request does not issue the next one at the same time, and a monitor does not tick twice in
a nanosecond. So a run against an endpoint that answers all calls alike comes to every instant.

* `Engine.Ticking` — monitors that tick have a period;
* `Engine.leftUntil` — how much can happen at most up to an instant;
* `Engine.Steps.leftUntil_lt`, `Engine.leftUntil_afterReturn` — less is left after it has happened;
* `Simulation.Awaited` — every call in service is awaited by its instance;
* `Simulation.exists_goes` — **every instant is reached**.
-/

/-- How much can happen to an instance up to an instant, with its calls: requests that it issues
    and replies that it gets. -/
def Phase.leftUntil (target : Nat) : Phase → Nat
  | fresh => 2 * (target + 1)
  | resting wake => 2 * (target + 1 - wake)
  | awaiting issued _ => 2 * (target + 1 - issued) - 1
  | _ => 0

/-- How much can happen to a monitor up to an instant: it cuts, sends and has its snapshot
    received. -/
def Monitor.leftUntil (target : Nat) (m : Monitor) : Nat :=
  match m.phase with
  | .waiting tick => 3 * (target + 1 - tick)
  | .sending tick _ => 3 * (target + 1 - tick) + 2
  | _ => 0

/-- What is left to an instance whose timer is set. -/
theorem Phase.leftUntil_of_wake? {phase : Phase} {wake : Nat} (h : phase.wake? = some wake)
    (target : Nat) : phase.leftUntil target = 2 * (target + 1 - wake) := by
  cases phase with
  | fresh | resting => cases h; rfl
  | _ => cases h

/-- Does the monitor tick, now or after it has sent its snapshot? -/
def MonitorPhase.isTicking : MonitorPhase → Bool
  | .waiting _ => true
  | .sending _ _ => true
  | _ => false

/-- A tick with a number does not fire before that many nanoseconds. -/
theorem Monitor.tick_le_of_isDue {m : Monitor} {tick now : Nat} (hperiod : 0 < m.period.nanos)
    (waits : m.phase = .waiting tick) (due : m.isDue now = true) : tick ≤ now := by
  have hwake : m.wake? = Clock.fire (tick * m.period.nanos) := by
    rw [wake?, waits]
    rfl
  rw [isDue, hwake, Clock.fire] at due
  -- A timer beyond the range never fires.
  by_cases hrange : tick * m.period.nanos < Clock.range
  · rw [if_pos hrange] at due
    have hnow : Clock.ceilTick (tick * m.period.nanos) ≤ now := of_decide_eq_true due
    have hceil := Clock.le_ceilTick (tick * m.period.nanos)
    have hmul : tick * 1 ≤ tick * m.period.nanos := Nat.mul_le_mul_left tick hperiod
    omega
  · rw [if_neg hrange] at due
    cases due

namespace Engine

variable {e e' : Engine} {a : Action} {new : List Event} {target : Nat}

/-- How much can happen at most up to an instant. -/
def leftUntil (target : Nat) (e : Engine) : Nat :=
  (e.instances.map (·.phase.leftUntil target)).sum +
    (e.monitors.map (Monitor.leftUntil target)).sum + e.channel.length + (target - e.now)

/-- What is left after the change of one instance, without subtraction. -/
theorem leftUntil_setInstance {i : Nat} {inst : Instance} (found : e.instances[i]? = some inst)
    (next : Instance) (target : Nat) :
    (e.setInstance i next).leftUntil target + inst.phase.leftUntil target =
      e.leftUntil target + next.phase.leftUntil target := by
  have hsum := sum_map_set (fun inst : Instance => inst.phase.leftUntil target) found next
  simp only [leftUntil, setInstance]
  omega

/-- What is left after the change of one monitor. -/
theorem leftUntil_setMonitor {m : Nat} {monitor : Monitor} (found : e.monitors[m]? = some monitor)
    (next : Monitor) (target : Nat) :
    (e.setMonitor m next).leftUntil target + monitor.leftUntil target =
      e.leftUntil target + next.leftUntil target := by
  have hsum := sum_map_set (Monitor.leftUntil target) found next
  simp only [leftUntil, setMonitor]
  omega

/-- Monitors that tick have a period. -/
def Ticking (e : Engine) : Prop :=
  ∀ m ∈ e.monitors, m.phase.isTicking = true → 0 < m.period.nanos

/-- A monitor that has been changed ticks with its period, if at all. -/
theorem Ticking.set (h : e.Ticking) {m : Nat} {monitor next : Monitor}
    (found : e.monitors[m]? = some monitor) (hperiod : next.period = monitor.period)
    (hphase : next.phase.isTicking = true → monitor.phase.isTicking = true) :
    ∀ other ∈ e.monitors.set m next, other.phase.isTicking = true → 0 < other.period.nanos := by
  intro other hother hticks
  rcases List.mem_or_eq_of_mem_set hother with hold | rfl
  · exact h other hold hticks
  · rw [hperiod]
    exact h monitor (List.mem_of_getElem? found) (hphase hticks)

/-- Every step lets monitors tick with a period only. -/
theorem Steps.ticking (h : Steps e a e' new) (hticking : e.Ticking) : e'.Ticking := by
  cases h with
  | cutNothing found due waits | cut found due waits | cutFails found due waits =>
    exact hticking.set found rfl fun _ => by rw [waits]; rfl
  | send room found holds => exact hticking.set found rfl fun _ => by rw [holds]; rfl
  | leave told found turn =>
    -- A monitor that leaves ticks no more.
    obtain ⟨-, rfl⟩ := Monitor.quit?_eq_some turn
    exact hticking.set found rfl fun hticks => Bool.noConfusion hticks
  | _ => exact hticking

section Runs

variable {config : EngineConfig} {profiles : List Profile}

/-- Monitors tick with a period in every state that can be reached. -/
theorem ticking_of_reaches (h : (start config profiles).Reaches e) : e.Ticking := by
  obtain ⟨as, events, hrun⟩ := h
  refine run?_induction (motive := fun mid _ => mid.Ticking) hrun ?_
    fun hmid hstep => hstep.ticking hmid
  intro m hm hticks
  obtain ⟨p, -, rfl⟩ := List.mem_map.mp hm
  unfold Monitor.start at hticks ⊢
  split at hticks
  · -- A monitor ticks only with a period.
    rename_i hperiod
    rw [Monitor.ticks, Bool.and_eq_true, Span.isZero] at hperiod
    have hnot : p.monitorPeriod.nanos ≠ 0 := by simpa using hperiod.1
    exact Nat.pos_of_ne_zero hnot
  · cases hticks

end Runs

/-- Less is left to happen after a tick: the next one has a higher number, and this one is not
    beyond the instant. -/
theorem leftUntil_tick (hticking : e.Ticking) (hnow : e.now ≤ target) {m tick : Nat}
    {monitor next : Monitor} (ledger : Ledger) (found : e.monitors[m]? = some monitor)
    (due : monitor.isDue e.now = true) (waits : monitor.phase = .waiting tick)
    (hless : tick ≤ target → next.leftUntil target < 3 * (target + 1 - tick)) :
    ({ e with ledger }.setMonitor m next).leftUntil target < e.leftUntil target := by
  have hperiod := hticking monitor (List.mem_of_getElem? found) (by rw [waits]; rfl)
  have htick := monitor.tick_le_of_isDue hperiod waits due
  have hbefore : monitor.leftUntil target = 3 * (target + 1 - tick) := by
    rw [Monitor.leftUntil, waits]
  have hset := leftUntil_setMonitor (e := { e with ledger }) found next target
  have hsame : ({ e with ledger } : Engine).leftUntil target = e.leftUntil target := rfl
  have hnext := hless (Nat.le_trans htick hnow)
  omega

/-- **Less is left to happen** after requests, ticks and the delivery of snapshots. -/
theorem Steps.leftUntil_lt (h : Steps e a e' new) (hturn : a.isTurn = true)
    (hruns : e.isRunning = true) (hhanded : e.Handed) (hticking : e.Ticking)
    (hnow : e.now ≤ target) : e'.leftUntil target < e.leftUntil target := by
  cases h with
  | @issue i inst next cost found turn =>
    have hset := leftUntil_setInstance found next target
    cases Instance.moves_of_issue? (i := i) turn with
    | @issues wake _ words waits due drawn =>
      have hbefore := Phase.leftUntil_of_wake? waits target
      have hafter : (Phase.awaiting e.now cost).leftUntil target = 2 * (target + 1 - e.now) - 1 :=
        rfl
      simp only [hafter] at hset
      omega
  | record found turn | crash found turn =>
    obtain ⟨holds, -⟩ := Instance.handOver?_eq_some turn
    exact absurd holds (hhanded _ (List.mem_of_getElem? found) _)
  | cutNothing found due waits kept | cut found due waits kept | cutFails found due waits kept =>
    refine leftUntil_tick hticking hnow _ found due waits fun hle => ?_
    simp only [Monitor.leftUntil]
    omega
  | @send m tick monitor s room found holds =>
    -- The snapshot goes to the channel, which counts for less than holding it.
    have hset := leftUntil_setMonitor (e := e.push s) found
      { monitor with phase := .waiting tick } target
    have hpush : (e.push s).leftUntil target = e.leftUntil target + 1 := by
      simp only [leftUntil, push, List.length_append, List.length_singleton]
      omega
    simp only [Monitor.leftUntil, holds] at hset
    omega
  | receive front =>
    simp only [leftUntil, report, front, List.length_cons]
    omega
  | quit told | leave told => rw [hruns] at told; cases told
  | flush status | flushFails status | sendFlushed status | finish status =>
    rw [Engine.isRunning, status] at hruns
    cases hruns
  | reply | advance | stop => cases hturn

/-! ### The return of a call -/

/-- The instance of a call that returns rests then, unless its record cannot be counted. -/
theorem afterReturn_eq {i issued : Nat} {inst : Instance} {cost : Cost}
    (found : e.instances[i]? = some inst) (awaits : inst.phase = .awaiting issued cost)
    (reply : Reply) :
    ∃ ledger phase, e.afterReturn i reply = { e with ledger }.setInstance i { inst with phase } ∧
      (phase = .resting (Clock.wake e.now inst.profile.thinkPeriod) ∨ phase = .crashed) := by
  have hlt : i < e.instances.length := (List.getElem?_eq_some_iff.mp found).1
  have hreply : e.after (.reply i reply) =
      e.setInstance i
        { inst with phase := .recording (inst.recordOf issued e.now cost reply) } := by
    refine after_of_step? (step?_of_steps (.reply found ?_))
    rw [Instance.receive?, awaits]
  rw [afterReturn, hreply]
  generalize inst.recordOf issued e.now cost reply = record
  have hplace : (e.setInstance i { inst with phase := .recording record }).instances[i]? =
      some { inst with phase := .recording record } := List.getElem?_set_self hlt
  have hturn : ({ inst with phase := .recording record } : Instance).handOver? e.now =
      some ({ inst with phase := .resting (Clock.wake e.now inst.profile.thinkPeriod) },
        record) := rfl
  -- The record of the instance replaces what the reply has left in its place.
  cases kept : (e.ledger.record (record.completedBy e.reading)).2 with
  | ok taken =>
    refine ⟨(e.ledger.record (record.completedBy e.reading)).1, _, ?_, .inl rfl⟩
    rw [after_of_step? (step?_of_steps (.record hplace hturn kept))]
    simp only [setInstance, List.set_set]
    rfl
  | error fault =>
    refine ⟨(e.ledger.record (record.completedBy e.reading)).1, _, ?_, .inr rfl⟩
    rw [after_of_step? (step?_of_steps (.crash hplace hturn kept))]
    simp only [setInstance, Instance.crash, List.set_set]
    rfl

/-- **Less is left to happen** after a call has returned, if its round takes time. -/
theorem leftUntil_afterReturn {i issued : Nat} {inst : Instance} {cost : Cost} {delay : Span}
    (found : e.instances[i]? = some inst) (awaits : inst.phase = .awaiting issued cost)
    (due : Clock.wake issued delay ≤ e.now) (hnow : e.now ≤ target)
    (lively : 0 < delay.nanos + inst.profile.thinkPeriod.nanos) (reply : Reply) :
    (e.afterReturn i reply).leftUntil target < e.leftUntil target := by
  obtain ⟨ledger, phase, heq, hphase⟩ := afterReturn_eq found awaits reply
  have hset := leftUntil_setInstance (e := { e with ledger }) found { inst with phase } target
  have hsame : ({ e with ledger } : Engine).leftUntil target = e.leftUntil target := rfl
  have hissued := Clock.le_wake issued delay
  rw [heq]
  simp only [awaits] at hset
  rw [Phase.leftUntil] at hset
  -- The instance thinks now, or it has ended and nothing is left to it.
  rcases hphase with rfl | rfl
  · -- Either the call has taken time, or the rest will.
    have hlater : issued < Clock.wake e.now inst.profile.thinkPeriod := by
      have hrest := Clock.le_wake e.now inst.profile.thinkPeriod
      by_cases hdelay : 0 < delay.nanos
      · have hstrict := Clock.lt_wake issued hdelay
        omega
      · have hstrict := Clock.lt_wake e.now (d := inst.profile.thinkPeriod) (by omega)
        omega
    simp only [Phase.leftUntil] at hset
    omega
  · simp only [Phase.leftUntil] at hset
    omega

end Engine

/-! ### Simulations -/

namespace Simulation

variable {b : Behaviour} {s s' : Simulation b} {delay : Span} {reply : Reply} {target : Nat}

/-- Every call in service is awaited by its instance, and returns after its delay. -/
structure Awaited (delay : Span) (reply : Reply) (s : Simulation b) : Prop where
  calls : ∀ c ∈ s.traffic.calls, ∃ inst issued cost, s.engine.instances[c.id]? = some inst ∧
    inst.phase = .awaiting issued cost ∧ c = Call.plain c.id (Clock.wake issued delay) reply
  nodup : s.traffic.ids.Nodup

/-- Calls that are awaited wait for their timer only. -/
theorem Awaited.plain (h : s.Awaited delay reply) : s.traffic.Plain reply := by
  intro c hc
  obtain ⟨inst, issued, cost, -, -, hplain⟩ := h.calls c hc
  exact ⟨_, hplain⟩

/-- In a run that goes on, only calls change anything about the instances. -/
theorem instances_of_next {a : Action} (hruns : s.engine.isRunning = true)
    (hnext : s.Next (.action a)) : (s.act a).engine.instances = s.engine.instances := by
  rw [act_eq]
  cases hstep : s.engine.step? a with
  | none => rw [Engine.after_of_none hstep]
  | some result =>
    obtain ⟨e, shown⟩ := result
    rw [Engine.after_of_step? hstep]
    have hsteps := Engine.steps_of_step? hstep
    cases hnext with
    -- Deliveries and cuts are about monitors.
    | delivers delivery =>
      unfold Engine.delivery? at delivery
      split at delivery
      · cases delivery
        cases hsteps
        rfl
      · obtain ⟨m, -, rfl⟩ := Option.map_eq_some_iff.mp delivery
        cases hsteps
        rfl
    | closes quiet closing => rw [closing?_of_isRunning hruns] at closing; cases closing
    | cuts => cases hsteps <;> rfl

/-- The call of a request is awaited by the instance that has issued it. -/
theorem Awaited.call (uniform : b.Uniform delay reply) (h : s.Awaited delay reply) (i : Nat) :
    (s.call i).Awaited delay reply := by
  cases hstep : s.engine.step? (.issue i) with
  | none =>
    rw [call_of_none hstep]
    exact h
  | some result =>
    obtain ⟨e, shown⟩ := result
    obtain ⟨endpoint, hcall⟩ := call_of_issue uniform hstep
    rw [hcall]
    cases Engine.steps_of_step? hstep with
    | @issue _ inst next cost found turn =>
      have hlt := (List.getElem?_eq_some_iff.mp found).1
      cases Instance.moves_of_issue? (i := i) turn with
      | @issues wake _ words waits due drawn =>
        -- The instance did not await anything, so no call in service is its own.
        have hother : ∀ c ∈ s.traffic.calls, c.id ≠ i := by
          intro c hc hid
          obtain ⟨own, issued, cost, hown, awaits, -⟩ := h.calls c hc
          rw [hid, found, Option.some.injEq] at hown
          rw [hown, awaits] at waits
          cases waits
        refine ⟨fun c hc => ?_, ?_⟩
        · rcases List.mem_append.mp hc with hold | hnew
          · obtain ⟨own, issued, cost, hown, rest⟩ := h.calls c hold
            refine ⟨own, issued, cost, ?_, rest⟩
            exact (List.getElem?_set_ne (Ne.symm (hother c hold))).trans hown
          · obtain rfl := List.mem_singleton.mp hnew
            exact ⟨_, s.engine.now, cost, List.getElem?_set_self hlt, rfl, rfl⟩
        · rw [Traffic.ids_append, List.nodup_append]
          refine ⟨h.nodup, List.nodup_singleton _, fun id hid other hmem heq => ?_⟩
          obtain ⟨c, hc, rfl⟩ := List.mem_map.mp hid
          exact hother c hc (heq.trans (List.mem_singleton.mp hmem))

/-- A call that has returned is in service no more, and the others have other instances. -/
theorem Awaited.move (h : s.Awaited delay reply) {c : Call} (hc : c ∈ s.traffic.calls) :
    (s.perform (.move c)).Awaited delay reply := by
  obtain ⟨inst, issued, cost, found, awaits, hplain⟩ := h.calls c hc
  obtain ⟨ledger, phase, hafter, -⟩ := Engine.afterReturn_eq found awaits reply
  have hids := Traffic.ids_without h.nodup hc
  rw [hplain, expired, hafter]
  refine ⟨fun d hd => ?_, ?_⟩
  · have hne : d.id ≠ c.id := by
      have hd' : d.id ∈ (s.traffic.without c.id).ids := List.mem_map_of_mem hd
      rw [hids] at hd'
      exact fun heq => h.nodup.not_mem_erase (heq ▸ hd')
    obtain ⟨own, issued, cost, hown, rest⟩ := h.calls d (List.mem_of_mem_eraseP hd)
    exact ⟨own, issued, cost, (List.getElem?_set_ne (Ne.symm hne)).trans hown, rest⟩
  · show (s.traffic.without c.id).ids.Nodup
    rw [hids]
    exact h.nodup.erase _

/-- The calls stay awaited, whatever happens. -/
theorem Awaited.perform (uniform : b.Uniform delay reply) (h : s.Awaited delay reply)
    (hruns : s.engine.isRunning = true) {happening : Happening}
    (hnext : s.next? = some happening) : (s.perform happening).Awaited delay reply := by
  cases happening with
  -- An action of the engine changes neither the calls nor the instances.
  | action a =>
    have hinstances := instances_of_next hruns (next?_eq_some_iff.mp hnext)
    rw [act_eq] at hinstances
    rw [Simulation.perform, act_eq]
    refine ⟨fun c hc => ?_, h.nodup⟩
    obtain ⟨inst, issued, cost, found, rest⟩ := h.calls c hc
    exact ⟨inst, issued, cost, hinstances ▸ found, rest⟩
  | call i => exact h.call uniform i
  | move c =>
    cases next?_eq_some_iff.mp hnext with
    | moves quiet runs due => exact h.move (mem_of_due? due)

/-! ### Runs that go on -/

/-- A run that goes on, with its calls. -/
structure Going (config : EngineConfig) (profiles : List Profile) (delay : Span) (reply : Reply)
    (s : Simulation b) : Prop where
  reaches : (Engine.start config profiles).Reaches s.engine
  runs : s.engine.isRunning = true
  handed : s.engine.Handed
  awaited : s.Awaited delay reply

section Going

variable {config : EngineConfig} {profiles : List Profile}

/-- A simulation goes on at its start. -/
theorem going_start : (start b config profiles).Going config profiles delay reply where
  reaches := .refl _
  runs := rfl
  handed inst hinst record holds := by
    rw [Engine.phase_of_instancesFrom hinst] at holds
    cases holds
  awaited := ⟨fun c hc => absurd hc List.not_mem_nil, List.nodup_nil⟩

/-- A simulation goes on whatever happens. -/
theorem Going.perform (uniform : b.Uniform delay reply) (h : s.Going config profiles delay reply)
    {happening : Happening} (hnext : s.next? = some happening) :
    (s.perform happening).Going config profiles delay reply where
  reaches := h.reaches.trans (prompt_perform s hnext).reaches
  runs := ((prompt_perform s hnext).proceeds 0).keeps
    (fun hstep ha => hstep.isRunning_of_isOwn ha) h.runs
  handed := handed_perform h.handed hnext
  awaited := h.awaited.perform uniform h.runs hnext

/-- A simulation goes on as time passes. -/
theorem Going.advance (h : s.Going config profiles delay reply) (now : Nat) :
    (s.act (.advance now)).Going config profiles delay reply where
  reaches := h.reaches.trans (reaches_act s _)
  runs := by
    rw [act_eq, Engine.after_advance]
    split <;> exact h.runs
  handed := handed_act h.handed fun _ _ hne => by cases hne
  awaited := by
    rw [act_eq, Engine.after_advance]
    split <;> exact ⟨h.awaited.calls, h.awaited.nodup⟩

/-- What happens next is possible. -/
theorem Going.isSome_step? (h : s.Going config profiles delay reply) {a : Action}
    (hnext : s.Next (.action a)) : (s.engine.step? a).isSome := by
  cases hnext with
  | delivers delivery =>
    obtain ⟨as, events, hrun⟩ := h.reaches
    exact (Engine.winds_of_delivery? (Engine.run?_room hrun) delivery).2
  | closes quiet closing => rw [closing?_of_isRunning h.runs] at closing; cases closing
  | @cuts m quiet runs still idle due =>
    obtain ⟨hlt, hdue, -⟩ := List.findIdx?_eq_some_iff_getElem.mp due
    have found := List.getElem?_eq_getElem hlt
    -- Only a monitor that awaits a tick can be due.
    cases hphase : s.engine.monitors[m].phase with
    | waiting tick => simp [Engine.step?, Engine.cut?, guard, found, hdue, hphase]
    | sending | parked | stopped => simp [Monitor.isDue, Monitor.wake?, hphase] at hdue

/-- **Less is left to happen** with everything that happens, if every round takes time. -/
theorem Going.leftUntil_perform (uniform : b.Uniform delay reply)
    (lively : ∀ p ∈ profiles, 0 < delay.nanos + p.thinkPeriod.nanos)
    (h : s.Going config profiles delay reply) (hnow : s.engine.now ≤ target)
    {happening : Happening} (hnext : s.next? = some happening) :
    (s.perform happening).engine.leftUntil target < s.engine.leftUntil target := by
  have hticking := Engine.ticking_of_reaches h.reaches
  have hnext' := next?_eq_some_iff.mp hnext
  cases happening with
  | action a =>
    -- An action uses up a tick, or a part of what follows one.
    obtain ⟨⟨e, shown⟩, hstep⟩ := Option.isSome_iff_exists.mp (h.isSome_step? hnext')
    rw [Simulation.perform, act_eq, Engine.after_of_step? hstep]
    exact (Engine.steps_of_step? hstep).leftUntil_lt hnext'.isTurn h.runs h.handed hticking hnow
  | call i =>
    -- The request that goes out ends a think time.
    cases hnext' with
    | calls quiet runs still issuer =>
      obtain ⟨hlt, hcan, -⟩ := List.findIdx?_eq_some_iff_getElem.mp issuer
      have hsome := Engine.issue?_isSome (List.getElem?_eq_getElem hlt) hcan
      obtain ⟨⟨e, shown⟩, hstep⟩ := Option.isSome_iff_exists.mp hsome
      obtain ⟨endpoint, hcall⟩ := call_of_issue uniform hstep
      rw [Simulation.perform, hcall]
      exact (Engine.steps_of_step? hstep).leftUntil_lt rfl h.runs h.handed hticking hnow
  | move c =>
    -- The call has fired, so either its delay or the think time before it has passed.
    cases hnext' with
    | moves quiet runs due =>
      obtain ⟨inst, issued, cost, found, awaits, hplain⟩ := h.awaited.calls c (mem_of_due? due)
      obtain ⟨as, events, hrun⟩ := h.reaches
      have hprofile := (Engine.profile_of_run? hrun found).1
      have hfired : Clock.wake issued delay ≤ s.engine.now := by
        have hdue := List.find?_some due
        rw [hplain] at hdue
        exact of_decide_eq_true hdue
      rw [hplain, expired]
      exact Engine.leftUntil_afterReturn found awaits hfired hnow (lively _ hprofile) reply

/-- When nothing happens at an instant, the next timer fires later. -/
theorem lt_of_nextWake? (hruns : s.engine.isRunning = true) (hquiet : s.next? = none) {wake : Nat}
    (hwake : s.nextWake? = some wake) : s.engine.now < wake := by
  obtain ⟨-, -, hidle⟩ := next?_eq_none_iff.mp hquiet
  exact (idle_iff hruns).mp (hidle hruns) wake hwake

/-- **Every instant is reached**, if every round takes time. -/
theorem exists_goes (uniform : b.Uniform delay reply)
    (lively : ∀ p ∈ profiles, 0 < delay.nanos + p.thinkPeriod.nanos)
    (hrange : target ≤ Clock.range) (h : s.Going config profiles delay reply)
    (hnow : s.engine.now ≤ target) :
    ∃ s', Goes target s s' ∧ s'.Going config profiles delay reply ∧ s'.engine.now = target := by
  -- What can still happen decreases, also when time passes.
  induction hmeasure : s.engine.leftUntil target using Nat.strong_induction_on generalizing s with
  | _ n ih =>
    cases hnext : s.next? with
    | some happening =>
      have hless := h.leftUntil_perform uniform lively hnow hnext
      have hsame : (s.perform happening).engine.now = s.engine.now :=
        (prompt_perform s hnext).keeps (motive := fun e => e.now = s.engine.now)
          (fun hstep ha hmid => (hstep.now_of_isPrompt ha).trans hmid) rfl
      obtain ⟨s', hgoes, hlast⟩ := ih _ (hmeasure ▸ hless) (h.perform uniform hnext)
        (hsame ▸ hnow) rfl
      exact ⟨s', .happens hnext hgoes, hlast⟩
    | none =>
      have hpass : ∀ t, s.engine.now ≤ t → t ≤ target →
          (s.act (.advance t)).engine = { s.engine with now := t } := fun t hfrom hto => by
        rw [act_eq, Engine.after_advance, if_pos ⟨hfrom, Nat.le_trans hto hrange⟩]
      by_cases hwake : ∃ wake, s.nextWake? = some wake ∧ wake ≤ target
      · obtain ⟨wake, hwake, hle⟩ := hwake
        have hlater := lt_of_nextWake? h.runs hnext hwake
        have hengine := hpass wake (Nat.le_of_lt hlater) hle
        have hless : (s.act (.advance wake)).engine.leftUntil target < n := by
          rw [hengine, ← hmeasure]
          simp only [Engine.leftUntil]
          omega
        obtain ⟨s', hgoes, hlast⟩ := ih _ hless (h.advance wake) (by rw [hengine]; exact hle) rfl
        exact ⟨s', .passes hnext hwake hle hgoes, hlast⟩
      · have hbeyond : ∀ wake, s.nextWake? = some wake → target < wake := fun wake hw =>
          Nat.not_le.mp fun hle => hwake ⟨wake, hw, hle⟩
        refine ⟨_, .arrives hnext hbeyond, h.advance target, ?_⟩
        rw [hpass target hnow (Nat.le_refl _)]

end Going

end Simulation

end ClosedLoop
