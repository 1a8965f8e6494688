import ClosedLoop.Proofs.Engine.Finishing
import ClosedLoop.Proofs.Engine.Population
import ClosedLoop.Proofs.Engine.Reporting

namespace ClosedLoop

/-!
# Stopping at once

A run on time that is told to end does so at the same instant, in whatever states its instances and
monitors are. None of them can keep it from ending: what they await is given up, and a monitor with
a snapshot to send finds room for it.

* `Engine.Prompt` — the run was told to end at an instant, and has come no further since;
* `Engine.Steps.prompt`, `Engine.prompt_of_stop` — so it stays until it has its report;
* `Engine.StopsAt` — what this means for the report and the flushed snapshots;
* `Simulation.begun_of_goes` — once its owner has let time pass, all instances have begun;
* `Engine.stops_at_once` — **all instances are there until the stop, which is over at once**.
-/

namespace Engine

variable {e e' mid : Engine} {a : Action} {told new : List Event} {t : Nat}

/-! ### Every run -/

section Runs

variable {config : EngineConfig} {profiles : List Profile} {as : List Action} {events : List Event}

/-- The channel of a run has room. -/
theorem run?_room (h : (start config profiles).run? as = some (e, events)) : 0 < e.room := by
  have hsame : e.room = config.room :=
    run?_induction (motive := fun mid _ => mid.room = config.room) h rfl
      fun hmid hstep => hstep.room.trans hmid
  rw [hsame, EngineConfig.room]
  omega

end Runs

/-! ### No time passes -/

/-- The run was told to end at `t`, with a flush. No time has passed until its report, and whatever
    was flushed then was flushed cleanly. -/
def Prompt (t : Nat) (e : Engine) : Prop :=
  match e.status with
  | .draining flushes since => flushes = true ∧ since = t ∧ e.now = t
  | .flushing clean elapsed _ => clean = true ∧ elapsed = t ∧ e.now = t
  | .finished clean elapsed => clean = true ∧ elapsed = t
  | _ => False

/-- A run that ends at once is ending. -/
theorem Prompt.isEnding (h : e.Prompt t) : e.IsEnding := by
  unfold Prompt at h
  unfold IsEnding
  split at h
  · rename_i hstatus
    rw [hstatus]
    exact h.1
  · rename_i hstatus
    rw [hstatus]
    trivial
  · rename_i hstatus
    rw [hstatus]
    trivial
  · exact h.elim

/-- Before the report the clock stands at the order. -/
theorem Prompt.now (h : e.Prompt t) (hnone : e.report? = none) : e.now = t := by
  unfold Prompt at h
  split at h
  · exact h.2.2
  · exact h.2.2
  · rename_i hstatus
    rw [report?, hstatus] at hnone
    cases hnone
  · exact h.elim

/-- A run with something to do does not let time pass. -/
theorem Ends.report?_of_mayPass (h : e.Ends) {target : Nat} (hpass : e.MayPass target) :
    e.report?.isSome := by
  cases hreport : e.report? with
  | some report => rfl
  | none =>
    obtain ⟨a, hwinds, hsome⟩ := h.exists_winds hreport
    rw [hpass.waits a hwinds.isTurn] at hsome
    cases hsome

/-- A flush ends its windows at the present. -/
theorem stop_of_flush {left : List Snapshot} (hdated : e.Dated e.now)
    (kept : (e.ledger.flush e.reading).2 = .ok left) : ∀ s ∈ left, s.stop.nanos = e.now := by
  obtain ⟨told, hbooks⟩ := hdated.books
  have hreading : e.reading.nanos = e.now := nanos_reading hbooks.now_le
  intro s hs
  have hends := Ledger.endsBy_of_flush hbooks.keeps.ascending hdated.opened
    (Nat.le_of_eq hreading) kept s hs
  -- A window never ends before the instant at which it is cut.
  obtain ⟨-, hstop⟩ := Ledger.stamps_of_flush hbooks.keeps.ascending kept hs
  rw [hstop, Span.nanos_max, hreading]
  exact Nat.max_eq_left hends.1

/-- Until there is a report, a run on time stays at the instant at which it was told to end; what it
    flushes ends there. -/
theorem Steps.prompt (h : Steps e a e' new) (htimely : e.Timely a) (hends : e.Ends)
    (hdated : e.report? = none → e.Dated e.now) (hgrace : 0 < e.grace.nanos)
    (hprompt : e.Prompt t) :
    e'.Prompt t ∧ ∀ flushed ∈ flushesOf new, ∀ s ∈ flushed, s.stop.nanos = t := by
  have hnothing : ∀ flushed ∈ ([] : List (List Snapshot)), ∀ s ∈ flushed, s.stop.nanos = t :=
    fun _ hmem => by cases hmem
  cases h with
  | advance later range =>
    obtain ⟨report, hreport⟩ :=
      Option.isSome_iff_exists.mp (hends.report?_of_mayPass (htimely _ rfl))
    obtain ⟨clean, elapsed, -⟩ := report?_eq_some hreport
    refine ⟨?_, hnothing⟩
    unfold Prompt at hprompt ⊢
    unfold report? at hreport
    split at hreport
    · rename_i hstatus
      rw [hstatus] at hprompt ⊢
      exact hprompt
    · cases hreport
  | stop runs =>
    rw [Prompt, runs] at hprompt
    exact hprompt.elim
  | @flush clean since left drains ripe kept =>
    rw [Prompt, drains] at hprompt
    obtain ⟨-, rfl, hnow⟩ := hprompt
    have hreport : e.report? = none := by rw [report?, drains]
    refine ⟨?_, fun flushed hmem => ?_⟩
    · -- The grace is not over, for no time has passed.
      cases clean with
      | true => exact ⟨rfl, hnow, hnow⟩
      | false =>
        have hover : since + e.grace.nanos ≤ e.now := of_decide_eq_true ripe
        omega
    · obtain rfl := List.mem_singleton.mp hmem
      rw [← hnow]
      exact stop_of_flush (hdated hreport) kept
  -- The windows of right books can be flushed.
  | flushFails drains ripe kept =>
    obtain ⟨told, hbooks⟩ := (hdated (by rw [report?, drains])).books
    exact absurd kept (hbooks.flush_ne_error _)
  | sendFlushed flushes room =>
    rw [Prompt, flushes] at hprompt
    exact ⟨hprompt, hnothing⟩
  | finish flushes drained left =>
    rw [Prompt, flushes] at hprompt
    exact ⟨⟨hprompt.1, hprompt.2.1⟩, hnothing⟩
  | _ => exact ⟨hprompt, hnothing⟩

/-- What becomes of a run that was told to end at `t`, with the events since. -/
structure StopsAt (e : Engine) (t : Nat) (after : List Event) : Prop where
  /-- Until there is a report, no time passes. -/
  prompt : e.report? = none → e.now = t
  /-- The report can be reached, without replies and without time. -/
  finishes : ∃ as events e', e.run? as = some (e', events) ∧ (∀ a ∈ as, a.isTurn) ∧
    e'.report?.isSome
  /-- The report tells of a clean end at that instant, and no instance is left. -/
  report : ∀ report, e.report? = some report →
    report.cleanShutdown = true ∧ report.elapsed.nanos = t ∧ e.totalActive = 0
  /-- Every flushed window ends at that instant. -/
  windows : ∀ flushed ∈ flushesOf after, ∀ s ∈ flushed, s.stop.nanos = t

section Stop

variable {config : EngineConfig} {profiles : List Profile} {as₁ as₂ : List Action}
  {before after : List Event}

/-- A run that was told to end and is on time is prompt. -/
theorem prompt_of_stop (patient : 0 < config.grace.nanos)
    (hbefore : (start config profiles).run? as₁ = some (mid, before))
    (hafter : mid.run? (.stop true :: as₂) = some (e, after))
    (hontime : mid.OnTime (.stop true :: as₂)) :
    e.Ends ∧ e.Prompt mid.now ∧
      ∀ flushed ∈ flushesOf after, ∀ s ∈ flushed, s.stop.nanos = mid.now := by
  obtain ⟨next, first, later, hstep, hrest, rfl⟩ := run?_cons_iff.mp hafter
  cases steps_of_step? hstep with
  | stop runs =>
    have hlast := hontime.2 _ _ hstep
    have hstop := run?_append hbefore (run?_one hstep)
    -- Whatever is reached from here is reached from the start.
    have hends : ∀ {bs : List Action} {e : Engine} {told : List Event},
        Engine.run? { mid with status := .draining true mid.now } bs = some (e, told) →
          e.Prompt mid.now → e.Ends := by
      intro bs e told hrun hprompt
      have hwhole := run?_append hstop hrun
      exact ⟨hprompt.isEnding, ⟨e.now, run?_dated hwhole⟩, run?_room hwhole⟩
    have hall : e.Prompt mid.now ∧
        ∀ flushed ∈ flushesOf later, ∀ s ∈ flushed, s.stop.nanos = mid.now := by
      refine run?_induction_onTime (motive := fun e told => e.Prompt mid.now ∧
        ∀ flushed ∈ flushesOf told, ∀ s ∈ flushed, s.stop.nanos = mid.now) hrest hlast
        ⟨⟨rfl, rfl, rfl⟩, fun _ hmem => by cases hmem⟩ ?_
      rintro bs e next a told new hrun ⟨hprompt, hwindows⟩ hsteps htimely
      have hwhole := run?_append hstop hrun
      have hgrace : 0 < e.grace.nanos := by
        rw [run?_grace hwhole]
        exact patient
      obtain ⟨hnext, hnew⟩ := hsteps.prompt htimely (hends hrun hprompt)
        (fun _ => run?_dated hwhole) hgrace hprompt
      refine ⟨hnext, fun flushed hmem => ?_⟩
      rw [flushesOf_append] at hmem
      rcases List.mem_append.mp hmem with hold | hnew'
      · exact hwindows flushed hold
      · exact hnew flushed hnew'
    exact ⟨hends hrest hall.1, hall⟩

/-- **A run on time that is told to end does so at once.** -/
theorem stopsAt_of_stop (patient : 0 < config.grace.nanos)
    (hbefore : (start config profiles).run? as₁ = some (mid, before))
    (hafter : mid.run? (.stop true :: as₂) = some (e, after))
    (hontime : mid.OnTime (.stop true :: as₂)) : e.StopsAt mid.now after := by
  obtain ⟨hends, hprompt, hwindows⟩ := prompt_of_stop patient hbefore hafter hontime
  refine ⟨hprompt.now, hends.finishes, fun report hreport => ?_, hwindows⟩
  obtain ⟨elapsed, hstatus, hat⟩ := report?_eq_some hreport
  rw [Prompt, hstatus] at hprompt
  obtain ⟨hclean, rfl⟩ := hprompt
  have helapsed := nanos_reading (run?_books hbefore).now_le
  -- Everything has ended after a clean flush.
  have hquiet : e.isQuiet := run?_quiet (run?_append hbefore hafter)
    (by rw [hstatus]; exact hclean) (by rw [hstatus]; rfl)
  refine ⟨hclean, by rw [hat]; exact helapsed, ?_⟩
  rw [totalActive, List.countP_eq_zero]
  intro inst hinst
  obtain ⟨i, found⟩ := List.mem_iff_getElem?.mp hinst
  have hended := isEnded_of_isQuiet hquiet found
  cases hphase : inst.phase with
  | stopped | crashed => simp [Phase.isActive, Phase.isEnded]
  | _ => rw [hphase] at hended; cases hended

end Stop

end Engine

/-! ### Simulations -/

namespace Simulation

variable {b : Behaviour} {s s' : Simulation b} {target : Nat}

/-- Once its owner has let time pass, all instances of a run have begun. -/
theorem begun_of_goes (h : Goes target s s') (hruns : s'.engine.isRunning = true) :
    s'.engine.Begun := by
  obtain ⟨-, -, hidle⟩ := next?_eq_none_iff.mp h.next?_eq_none
  -- An instance that has not begun could issue its first request.
  intro inst hinst hfresh
  have hcan := List.findIdx?_eq_none_iff.mp (hidle hruns).2.1 inst hinst
  simp [Instance.canIssue, hfresh, Phase.wake?] at hcan

/-- A simulation that was told to end goes on from there, and that is a run on time. -/
theorem Driven.stopped {config : EngineConfig} {profiles : List Profile}
    (h : Driven b config profiles s) (hruns : s.engine.isRunning = true) {target fuel : Nat}
    {last : Simulation b} (hlast : runUntil target fuel (s.told true) = some last) :
    ∃ as after, s.engine.run? (.stop true :: as) = some (last.engine, after) ∧
      s.engine.OnTime (.stop true :: as) := by
  have hengine : (s.told true).engine = { s.engine with status := .draining true s.engine.now } :=
    engine_stop hruns (Traffic.idle b.capacity)
  -- The order to stop is the first action of the run that goes on.
  have hstep : s.engine.step? (.stop true) = some ((s.told true).engine, []) := by
    rw [hengine]
    show s.engine.stop? true = _
    rw [Engine.stop?, if_pos hruns]
  obtain ⟨htold, -⟩ := (Driven.tells h true).punctually
  obtain ⟨-, as, after, hrun, hontime⟩ := (goes_of_runUntil hlast).punctually htold
  refine ⟨as, after, Engine.run?_cons_iff.mpr ⟨_, [], after, hstep, hrun, rfl⟩, ?_,
    fun next shown hnext => ?_⟩
  · exact Engine.timely_of_ne fun _ hne => by cases hne
  · rw [hstep] at hnext
    cases hnext
    exact hontime

/-- Nothing keeps a simulation that is told to end from its report. -/
theorem Driven.ends {config : EngineConfig} {profiles : List Profile}
    (h : Driven b config profiles s) (hruns : s.engine.isRunning = true) :
    (s.told true).engine.Handed ∧ (s.told true).engine.Ends := by
  obtain ⟨htold, as, events, hwhole, -⟩ := (Driven.tells h true).punctually
  have hengine : (s.told true).engine = { s.engine with status := .draining true s.engine.now } :=
    engine_stop hruns (Traffic.idle b.capacity)
  exact ⟨htold, by rw [hengine]; exact rfl, ⟨_, Engine.run?_dated hwhole⟩,
    Engine.run?_room hwhole⟩

/-- **A simulation that its owner tells to end is over at once**, and that is a run on time. -/
theorem Driven.stops {config : EngineConfig} {profiles : List Profile}
    (patient : 0 < config.grace.nanos) (h : Driven b config profiles s)
    (hruns : s.engine.isRunning = true) {fuel : Nat} (hfuel : (s.told true).engine.toDo < fuel) :
    ∃ last as after, runUntil s.engine.now fuel (s.told true) = some last ∧
      last.engine.report?.isSome ∧ s.engine.run? (.stop true :: as) = some (last.engine, after) ∧
        last.engine.StopsAt s.engine.now after := by
  obtain ⟨-, as₁, before, hbefore, -⟩ := h.punctually
  obtain ⟨htold, hends⟩ := h.ends hruns
  obtain ⟨last, hlast, hreport⟩ := report_of_ends s.engine.now htold hends hfuel
  obtain ⟨as, after, hafter, hontime⟩ := h.stopped hruns hlast
  exact ⟨last, as, after, hlast, hreport, hafter,
    Engine.stopsAt_of_stop patient hbefore hafter hontime⟩

end Simulation

namespace Engine

/-- **All instances are there until the stop, which is over at once.** For accepted profiles and any
    grace, whatever the calls return or whether they do: once they have begun, every profile has all
    of its instances until the run is told to end, as long as the latencies of its calls can be
    added up. A run on time that is told to end then stays at
    that instant until its report, which can always be reached and tells of a clean end. A
    simulation against any endpoint begins all instances when its owner lets time pass, and reaches
    its report when he tells it to end. -/
theorem stops_at_once {config : EngineConfig} {profiles : List Profile}
    (accepted : Engine.check profiles = .ok ()) (patient : 0 < config.grace.nanos) :
    (∀ {as : List Action} {e : Engine} {events : List Event},
      (start config profiles).run? as = some (e, events) → e.isRunning = true → e.Begun →
        e.Populated profiles) ∧
    (∀ {as₁ as₂ : List Action} {mid e : Engine} {before after : List Event},
      (start config profiles).run? as₁ = some (mid, before) →
      mid.run? (.stop true :: as₂) = some (e, after) → mid.OnTime (.stop true :: as₂) →
        e.StopsAt mid.now after) ∧
    ∀ {b : Behaviour} {s s' : Simulation b} {target fuel : Nat},
      s.Driven b config profiles → Simulation.runUntil target fuel s = some s' →
      s'.engine.isRunning = true → s'.engine.Begun ∧
        ∀ fuel, (s'.told true).engine.toDo < fuel → ∃ last as after,
          Simulation.runUntil s'.engine.now fuel (s'.told true) = some last ∧
            last.engine.report?.isSome ∧
              s'.engine.run? (.stop true :: as) = some (last.engine, after) ∧
                last.engine.StopsAt s'.engine.now after := by
  -- The first two parts are about all runs, the third one about a simulation.
  refine ⟨run?_populated accepted, stopsAt_of_stop patient, ?_⟩
  intro b s s' target fuel hdriven hslept hruns
  refine ⟨Simulation.begun_of_goes (Simulation.goes_of_runUntil hslept) hruns, fun fuel hfuel => ?_⟩
  exact (Simulation.Driven.sleeps hdriven hslept).stops patient hruns hfuel

/-- An endpoint whose calls never return. -/
def silent : Behaviour := ⟨Unit, (), fun _ => 0, fun _ _ => pure ⟨[], none⟩⟩

/-- Two instances whose calls never return, told to end after three milliseconds. -/
theorem stops_at_once_silent :
    Engine.check [thinkingPair] = .ok () ∧ 0 < (EngineConfig.standard 1).grace.nanos ∧
      ∃ s', Simulation.runUntil 3000000 10
          (Simulation.start silent (.standard 1) [thinkingPair]) = some s' ∧
        s'.engine.Populated [thinkingPair] ∧ s'.engine.active? 3 = some 2 ∧
          ∃ last report, Simulation.runUntil s'.engine.now 20 (s'.told true) = some last ∧
            last.engine.report? = some report ∧ report.cleanShutdown = true ∧
              report.elapsed.nanos = 3000000 ∧ last.engine.totalActive = 0 := by
  have accepted := check_thinkingPair
  have patient : 0 < (EngineConfig.standard 1).grace.nanos := by decide +kernel
  -- What the run shows by computing it, and how many steps are left then.
  have hslept : (Simulation.runUntil 3000000 10
      (Simulation.start silent (.standard 1) [thinkingPair])).any fun s =>
        decide (s.engine.isRunning = true) && decide (s.engine.now = 3000000) &&
          decide (s.engine.active? 3 = some 2) &&
            decide ((s.told true).engine.toDo < 20) := by decide +kernel
  obtain ⟨s', hs', hslept⟩ := (Option.any_eq_true _ _).mp hslept
  simp only [Bool.and_eq_true, decide_eq_true_eq] at hslept
  obtain ⟨⟨⟨hruns, hnow⟩, hactive⟩, hfuel⟩ := hslept
  obtain ⟨hpopulated, -, hsimulated⟩ := stops_at_once accepted patient
  obtain ⟨hbegun, hstops⟩ := hsimulated .start hs' hruns
  obtain ⟨-, as, events, hrun, -⟩ :=
    (Simulation.Driven.sleeps (b := silent) .start hs').punctually
  obtain ⟨last, bs, after, hlast, hsome, -, hat⟩ := hstops 20 hfuel
  obtain ⟨report, hreport⟩ := Option.isSome_iff_exists.mp hsome
  obtain ⟨hclean, helapsed, hnobody⟩ := hat.report report hreport
  exact ⟨accepted, patient, s', hs', hpopulated hrun hruns hbegun, hactive, last, report, hlast,
    hreport, hclean, helapsed.trans hnow, hnobody⟩

/-! ### Calls that take too long -/

/-- Three instances whose window is cut by nothing but the final flush. -/
def patientTrio : Profile :=
  { Profile.blank 3 "a" with instances := 3, monitorInterval := 1e19 }

/-- The profile is accepted. -/
theorem check_patientTrio : Engine.check [patientTrio] = .ok () := by
  rw [Engine.check, validateAll_ok_iff]
  refine ⟨fun p hp => ?_, by decide⟩
  rw [List.mem_singleton.mp hp, Profile.validate_ok_iff]
  decide +kernel

/-- Their calls return together, shortly before the range of the clock is over. Two latencies can be
    added up, and the third one breaks the sum. -/
def longCalls : List Action :=
  [.issue 0, .issue 1, .issue 2, .advance 9200000000000000000000000000,
    .reply 0 (.ok ⟨none⟩), .record 0, .reply 1 (.ok ⟨none⟩), .record 1, .reply 2 (.ok ⟨none⟩),
    .record 2]

/-- Time passes only while all three await their replies. -/
theorem onTime_longCalls : (start (.standard 1) [patientTrio]).OnTime longCalls := by
  have hissued : ((start (.standard 1) [patientTrio]).run? [.issue 0, .issue 1, .issue 2]).any
      fun r => r.1.isRunning && r.1.channel.isEmpty && r.1.instances.all (·.phase.isAwaiting) &&
        r.1.monitors.all fun m => m.wake? == none && !m.isSending := by decide +kernel
  obtain ⟨⟨mid, shown⟩, hrun, hissued⟩ := (Option.any_eq_true _ _).mp hissued
  simp only [Bool.and_eq_true, List.isEmpty_iff, List.all_eq_true, beq_iff_eq,
    Bool.not_eq_true'] at hissued
  obtain ⟨⟨⟨hruns, hchannel⟩, hawait⟩, hidle⟩ := hissued
  show (start (.standard 1) [patientTrio]).OnTime
    ([.issue 0, .issue 1, .issue 2] ++ .advance 9200000000000000000000000000 :: _)
  refine (onTime_append hrun).mpr ⟨onTime_of_isPrompt (by decide), fun target _ => ?_,
    fun next told _ => onTime_of_isPrompt (by decide)⟩
  exact mayPass_of_awaiting hruns hchannel hawait hidle target

/-- Without the bound an instance may be missing: the run goes on, and two of three are active. -/
theorem stops_at_once_fails :
    Engine.check [patientTrio] = .ok () ∧
      (start (.standard 1) [patientTrio]).OnTime longCalls ∧ ∃ e events,
        (start (.standard 1) [patientTrio]).run? longCalls = some (e, events) ∧
          e.isRunning = true ∧ e.Begun ∧ patientTrio.instances = 3 ∧
            e.active? patientTrio.id = some 2 ∧ e.totalActive = 2 := by
  have hends : ((start (.standard 1) [patientTrio]).run? longCalls).any fun r =>
      r.1.isRunning && r.1.instances.all (·.phase.wake? != some 0) &&
        decide (r.1.active? patientTrio.id = some 2) && decide (r.1.totalActive = 2) := by
    decide +kernel
  obtain ⟨⟨e, events⟩, hrun, hends⟩ := (Option.any_eq_true _ _).mp hends
  simp only [Bool.and_eq_true, List.all_eq_true, decide_eq_true_eq] at hends
  obtain ⟨⟨⟨hruns, hbegun⟩, hactive⟩, htotal⟩ := hends
  refine ⟨check_patientTrio, onTime_longCalls, e, events, hrun, hruns, fun inst hinst hfresh => ?_,
    rfl, hactive, htotal⟩
  -- An instance that has not begun would issue its first request at once.
  have hwakes := hbegun inst hinst
  simp [hfresh, Phase.wake?] at hwakes

end Engine

end ClosedLoop
