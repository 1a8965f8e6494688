import ClosedLoop.Proofs.Endpoint.Mock
import ClosedLoop.Proofs.Engine.Arriving
import ClosedLoop.Proofs.Engine.Load

namespace ClosedLoop

/-!
# Simulations of a constant load

Against an endpoint that answers all calls alike, every action of a simulation suits the delay of
the calls. So the load of such a simulation is known at every instant between two returns.

* `Engine.Serving` — a run whose actions suit a delay;
* `Simulation.Carried` — every request in flight has its call in service;
* `Simulation.Driven.serving` — whatever the owner of a simulation does, its run suits the delay;
* `Engine.constant_load` — **the load of calls that all take the same time**, in closed form;
* `Engine.constant_load_fails` — what it would be without the limit of thirty years.
-/

namespace Engine

variable {delay : Span} {e mid e' : Engine} {a : Action} {shown : List Event}

/-- The second engine comes out of a run of the first one whose actions suit the delay. -/
def Serving (delay : Span) (e e' : Engine) : Prop :=
  ∃ as events, e.run? as = some (e', events) ∧ e.Throughout (Serves delay) as

namespace Serving

/-- Nothing has to happen. -/
theorem refl (e : Engine) : e.Serving delay e := ⟨[], [], rfl, trivial⟩

/-- One thing happens after the other. -/
theorem trans (h : e.Serving delay mid) (hlater : mid.Serving delay e') : e.Serving delay e' := by
  obtain ⟨as, events, hrun, hsuits⟩ := h
  obtain ⟨bs, later, hrest, hlast⟩ := hlater
  exact ⟨as ++ bs, events ++ later, run?_append hrun hrest, (throughout_append hrun).mpr
    ⟨hsuits, hlast⟩⟩

/-- One action that suits if it is possible. -/
theorem after (h : (e.step? a).isSome → e.Serves delay a) : e.Serving delay (e.after a) := by
  cases hstep : e.step? a with
  | none =>
    rw [after_of_none hstep]
    exact .refl e
  | some result =>
    obtain ⟨next, shown⟩ := result
    rw [after_of_step? hstep]
    exact ⟨[a], shown, run?_one hstep, throughout_one (h (by rw [hstep]; rfl))⟩

end Serving

/-- What the engine does by itself, and the order to end, suit every delay. -/
theorem serves_of_ne (hreply : ∀ i reply, a ≠ .reply i reply) (hpass : ∀ t, a ≠ .advance t) :
    e.Serves delay a where
  timely := timely_of_ne hpass
  returns i reply ha := absurd ha (hreply i reply)
  passes target ha := absurd ha (hpass target)

/-- A turn of the engine is no return and takes no time. -/
theorem serves_of_isTurn (h : a.isTurn = true) : e.Serves delay a := by
  refine serves_of_ne (fun i reply ha => ?_) fun t ha => ?_
  · rw [ha] at h
    cases h
  · rw [ha] at h
    cases h

/-- Time that may pass suits if no call returns before. -/
theorem serves_advance {target : Nat} (hpass : e.MayPass target)
    (hcalls : e.isRunning = true → ∀ inst ∈ e.instances, ∀ issued cost,
      inst.phase = .awaiting issued cost → target ≤ Clock.wake issued delay) :
    e.Serves delay (.advance target) where
  timely t ht := by
    cases ht
    exact hpass
  returns i reply ha := by cases ha
  passes t ht hruns := by
    cases ht
    exact hcalls hruns

/-- The return of a call and its record suit once the delay of the call is over. -/
theorem serving_afterReturn {i issued : Nat} {inst : Instance} {cost : Cost} {reply : Reply}
    (hsuccess : reply.outcome = .success) (found : e.instances[i]? = some inst)
    (awaits : inst.phase = .awaiting issued cost) (due : Clock.wake issued delay ≤ e.now) :
    e.Serving delay (e.afterReturn i reply) := by
  have hreply : e.Serves delay (.reply i reply) := {
    timely := timely_of_ne fun t ha => by cases ha
    returns := fun j other ha => by
      cases ha
      refine ⟨hsuccess, fun own at' cost' hown hawaits => ?_⟩
      rw [found, Option.some.injEq] at hown
      rw [← hown, awaits] at hawaits
      cases hawaits
      exact due
    passes := fun t ha => by cases ha }
  -- After the return it is a turn of the instance that hands the record over.
  exact (Serving.after fun _ => hreply).trans (Serving.after fun _ => serves_of_isTurn rfl)

end Engine

namespace Simulation

variable {b : Behaviour} {s s' : Simulation b} {delay : Span} {reply : Reply} {target : Nat}
  {config : EngineConfig} {profiles : List Profile}

/-! ### Calls in service -/

/-- Every request in flight has its call in service. -/
def Carried (delay : Span) (reply : Reply) (s : Simulation b) : Prop :=
  ∀ (i : Nat) (inst : Instance) (issued : Nat) (cost : Cost), s.engine.instances[i]? = some inst →
    inst.phase = .awaiting issued cost →
      Call.plain i (Clock.wake issued delay) reply ∈ s.traffic.calls

/-- A request that is issued has its call behind all others. -/
theorem Carried.call (h : s.Carried delay reply) (uniform : b.Uniform delay reply) (i : Nat) :
    (s.call i).Carried delay reply := by
  cases hstep : s.engine.step? (.issue i) with
  | none =>
    rw [call_of_none hstep]
    exact h
  | some result =>
    obtain ⟨e, shown⟩ := result
    obtain ⟨endpoint, hcall⟩ := call_of_issue uniform hstep
    rw [hcall]
    cases Engine.steps_of_step? hstep with
    | @issue _ inst next cost found turn =>
      intro j own issued cost' hown awaits
      have hlt := (List.getElem?_eq_some_iff.mp found).1
      -- The call of the instance itself is the new one. The others have theirs from before.
      by_cases hj : i = j
      · subst hj
        have hnext : own = next := by
          have hset : (s.engine.instances.set i next)[i]? = some next := List.getElem?_set_self hlt
          exact Option.some.inj (hown.symm.trans hset)
        subst hnext
        cases Instance.moves_of_issue? (i := i) turn with
        | issues waits due drawn =>
          cases awaits
          exact List.mem_append_right _ (List.mem_singleton_self _)
      · have hsame : s.engine.instances[j]? = some own := (List.getElem?_set_ne hj).symm.trans hown
        exact List.mem_append_left _ (h j own issued cost' hsame awaits)

/-- When a call has returned, its instance awaits nothing. -/
theorem Carried.move (h : s.Carried delay reply) (awaited : s.Awaited delay reply) {c : Call}
    (hc : c ∈ s.traffic.calls) : (s.perform (.move c)).Carried delay reply := by
  obtain ⟨inst, issued, cost, found, awaits, hplain⟩ := awaited.calls c hc
  obtain ⟨ledger, phase, hafter, hphase⟩ := Engine.afterReturn_eq found awaits reply
  have hlt := (List.getElem?_eq_some_iff.mp found).1
  rw [hplain, expired, hafter]
  intro j own issued' cost' hown hawaits
  by_cases hj : c.id = j
  · subst hj
    have hset : (s.engine.instances.set c.id { inst with phase })[c.id]? =
        some { inst with phase } := List.getElem?_set_self hlt
    have hown' : own = { inst with phase } := Option.some.inj (hown.symm.trans hset)
    rw [hown'] at hawaits
    -- Whether it rests or has ended, it does not wait for an answer.
    rcases hphase with rfl | rfl
    · cases hawaits
    · cases hawaits
  · have hsame : s.engine.instances[j]? = some own := (List.getElem?_set_ne hj).symm.trans hown
    have hcall := h j own issued' cost' hsame hawaits
    refine (List.mem_eraseP_of_neg ?_).mpr hcall
    intro hid
    exact hj (of_decide_eq_true hid).symm

/-- Instances that await something have their calls in service, whatever happens. -/
theorem Carried.perform (h : s.Carried delay reply) (uniform : b.Uniform delay reply)
    (awaited : s.Awaited delay reply) (hruns : s.engine.isRunning = true) {happening : Happening}
    (hnext : s.next? = some happening) : (s.perform happening).Carried delay reply := by
  cases happening with
  | action a =>
    have hinstances := instances_of_next hruns (next?_eq_some_iff.mp hnext)
    rw [act_eq] at hinstances
    rw [Simulation.perform, act_eq]
    intro i inst issued cost found
    exact h i inst issued cost (hinstances ▸ found)
  | call i => exact h.call uniform i
  | move c =>
    cases next?_eq_some_iff.mp hnext with
    | moves quiet runs due => exact h.move awaited (mem_of_due? due)

/-- Calls stay in service as time passes. -/
theorem Carried.advance (h : s.Carried delay reply) (now : Nat) :
    (s.act (.advance now)).Carried delay reply := by
  rw [act_eq, Engine.after_advance]
  split <;> exact h

/-! ### Simulations suit the delay -/

/-- A simulation that goes on, with all of its calls. -/
structure Busy (config : EngineConfig) (profiles : List Profile) (delay : Span) (reply : Reply)
    (s : Simulation b) : Prop where
  going : s.Going config profiles delay reply
  carried : s.Carried delay reply

/-- What happens in a simulation that goes on suits the delay. -/
theorem Busy.serving_perform (hsuccess : reply.outcome = .success)
    (uniform : b.Uniform delay reply) (h : s.Busy config profiles delay reply)
    {happening : Happening} (hnext : s.next? = some happening) :
    s.engine.Serving delay (s.perform happening).engine := by
  have hnext' := next?_eq_some_iff.mp hnext
  cases happening with
  | action a =>
    rw [perform, act_eq]
    exact .after fun _ => Engine.serves_of_isTurn hnext'.isTurn
  | call i =>
    show s.engine.Serving delay (s.call i).engine
    cases hstep : s.engine.step? (.issue i) with
    | none =>
      rw [call_of_none hstep]
      exact .refl _
    | some result =>
      obtain ⟨endpoint, hcall⟩ := call_of_issue uniform hstep
      rw [hcall]
      exact ⟨_, _, Engine.run?_one hstep, Engine.throughout_one (Engine.serves_of_isTurn rfl)⟩
  | move c =>
    cases hnext' with
    | moves quiet runs due =>
      obtain ⟨inst, issued, cost, found, awaits, hplain⟩ :=
        h.going.awaited.calls c (mem_of_due? due)
      -- The call is due, so the delay is over.
      have hfired : Clock.wake issued delay ≤ s.engine.now := by
        have hdue := List.find?_some due
        rw [hplain] at hdue
        exact of_decide_eq_true hdue
      rw [hplain, expired]
      exact Engine.serving_afterReturn hsuccess found awaits hfired

/-- Time that passes suits the delay, for it does not pass beyond the return of a call. -/
theorem Busy.serving_advance (h : s.Busy config profiles delay reply) (hquiet : s.next? = none)
    (hwake : ∀ wake, s.nextWake? = some wake → target ≤ wake) :
    s.engine.Serving delay (s.act (.advance target)).engine := by
  have hpass := mayPass_of_next? h.going.handed hquiet hwake
  obtain ⟨hcalls, -⟩ := (le_nextWake?_iff target h.going.runs).mp hwake
  rw [act_eq]
  refine .after fun _ => Engine.serves_advance hpass fun _ inst hinst issued cost awaits => ?_
  obtain ⟨i, found⟩ := List.mem_iff_getElem?.mp hinst
  exact hcalls _ (h.carried i inst issued cost found awaits) _ rfl

/-- A busy simulation stays busy. -/
theorem Busy.perform (uniform : b.Uniform delay reply) (h : s.Busy config profiles delay reply)
    {happening : Happening} (hnext : s.next? = some happening) :
    (s.perform happening).Busy config profiles delay reply where
  going := h.going.perform uniform hnext
  carried := h.carried.perform uniform h.going.awaited h.going.runs hnext

/-- **Everything that happens in a simulation up to an instant suits the delay.** -/
theorem Goes.serving (hsuccess : reply.outcome = .success) (uniform : b.Uniform delay reply)
    (h : Goes target s s') (hbusy : s.Busy config profiles delay reply) :
    s.engine.Serving delay s'.engine ∧ s'.Busy config profiles delay reply := by
  induction h with
  -- What happens now suits the delay, and so does the rest.
  | happens next rest ih =>
    obtain ⟨hrest, hlast⟩ := ih (hbusy.perform uniform next)
    exact ⟨(hbusy.serving_perform hsuccess uniform next).trans hrest, hlast⟩
  | @passes s s' t quiet wake within rest ih =>
    have hfirst := hbusy.serving_advance quiet fun w hw => by
      rw [wake] at hw
      exact Nat.le_of_eq (Option.some.inj hw)
    obtain ⟨hrest, hlast⟩ := ih ⟨hbusy.going.advance t, hbusy.carried.advance t⟩
    exact ⟨hfirst.trans hrest, hlast⟩
  | @arrives s quiet beyond =>
    exact ⟨hbusy.serving_advance quiet fun w hw => Nat.le_of_lt (beyond w hw),
      hbusy.going.advance target, hbusy.carried.advance target⟩

/-- Whatever the engine does, a run that was told to end does not go on again. -/
theorem isRunning_act {a : Action} (hended : s.engine.isRunning = false) :
    (s.act a).engine.isRunning = false := by
  rw [act_eq]
  cases hstep : s.engine.step? a with
  | none => rwa [Engine.after_of_none hstep]
  | some result =>
    rw [Engine.after_of_step? hstep, ← Bool.not_eq_true]
    intro hruns
    have hstatus := (Engine.steps_of_step? hstep).running (Engine.status_of_isRunning hruns)
    rw [Engine.isRunning, hstatus.1] at hended
    cases hended

/-- Once a run was told to end, time that passes waits for no call. -/
theorem serving_advance_of_ended (hhanded : s.engine.Handed) (hended : s.engine.isRunning = false)
    (hquiet : s.next? = none) (hwake : ∀ wake, s.nextWake? = some wake → target ≤ wake) :
    s.engine.Serving delay (s.act (.advance target)).engine := by
  rw [act_eq]
  refine .after fun _ => Engine.serves_advance (mayPass_of_next? hhanded hquiet hwake) ?_
  intro hruns
  rw [hended] at hruns
  cases hruns

/-- Nothing that happens after the order to end concerns calls. -/
theorem Goes.serving_ended (h : Goes target s s') (hhanded : s.engine.Handed)
    (hended : s.engine.isRunning = false) :
    s.engine.Serving delay s'.engine ∧ s'.engine.isRunning = false := by
  induction h with
  | @happens s s' happening next rest ih =>
    have hhanded' := handed_perform hhanded next
    -- Only turns of the engine are left: calls neither go out nor move.
    cases happening with
    | action a =>
      have hturn := (next?_eq_some_iff.mp next).isTurn
      have hfirst : s.engine.Serving delay (s.act a).engine := by
        rw [act_eq]
        exact .after fun _ => Engine.serves_of_isTurn hturn
      obtain ⟨hrest, hlast⟩ := ih hhanded' (isRunning_act hended)
      exact ⟨hfirst.trans hrest, hlast⟩
    | call i =>
      cases next?_eq_some_iff.mp next with
      | calls quiet runs => rw [hended] at runs; cases runs
    | move c =>
      cases next?_eq_some_iff.mp next with
      | moves quiet runs => rw [hended] at runs; cases runs
  | @passes s s' t quiet wake within rest ih =>
    have hfirst : s.engine.Serving delay (s.act (.advance t)).engine :=
      serving_advance_of_ended hhanded hended quiet fun w hw => by
        rw [wake] at hw
        exact Nat.le_of_eq (Option.some.inj hw)
    have hhanded' : (s.act (.advance t)).engine.Handed :=
      handed_act hhanded fun i reply hne => by cases hne
    obtain ⟨hrest, hlast⟩ := ih hhanded' (isRunning_act hended)
    exact ⟨hfirst.trans hrest, hlast⟩
  | @arrives s quiet beyond =>
    have hfirst : s.engine.Serving delay (s.act (.advance target)).engine :=
      serving_advance_of_ended hhanded hended quiet fun w hw => Nat.le_of_lt (beyond w hw)
    exact ⟨hfirst, isRunning_act hended⟩

/-- **The run of a simulation suits the delay of its calls**, whatever its owner does. -/
theorem Driven.serving (hsuccess : reply.outcome = .success) (uniform : b.Uniform delay reply)
    (h : Driven b config profiles s) :
    (Engine.start config profiles).Serving delay s.engine ∧
      (s.engine.isRunning = true → s.Busy config profiles delay reply) := by
  induction h with
  | start =>
    refine ⟨.refl _, fun _ => ⟨going_start, fun i inst issued cost found awaits => ?_⟩⟩
    -- At the start nobody awaits anything.
    rw [Engine.phase_of_instancesFrom (List.mem_of_getElem? found)] at awaits
    cases awaits
  | @sleeps s s' target fuel earlier slept ih =>
    have hgoes := goes_of_runUntil slept
    -- Before the order to end the simulation is busy. After it calls do not matter.
    cases hruns : s.engine.isRunning with
    | true =>
      obtain ⟨hrest, hlast⟩ := hgoes.serving hsuccess uniform (ih.2 hruns)
      exact ⟨ih.1.trans hrest, fun _ => hlast⟩
    | false =>
      obtain ⟨hrest, hlast⟩ := hgoes.serving_ended earlier.punctually.1 hruns
      refine ⟨ih.1.trans hrest, fun hagain => ?_⟩
      rw [hlast] at hagain
      cases hagain
  | @tells s earlier flushes ih =>
    have hengine : (s.told flushes).engine = s.engine.after (.stop flushes) := by
      rw [told, act_eq]
    rw [hengine]
    refine ⟨ih.1.trans (.after fun _ => ?_), fun hagain => ?_⟩
    · exact Engine.serves_of_ne (fun _ _ hne => by cases hne) fun _ hne => by cases hne
    · -- A run that was told to end does not go on.
      rw [Engine.after_stop] at hagain
      split at hagain
      · cases hagain
      · contradiction

/-! ### The load of a simulation -/

/-- Every instant within the range of the clock can be waited for, if every round takes time. -/
theorem exists_driven (uniform : b.Uniform delay reply)
    (lively : ∀ p ∈ profiles, 0 < Clock.pause delay + Clock.pause p.thinkPeriod)
    (hrange : target ≤ Clock.range) : ∃ s : Simulation b, s.Driven b config profiles ∧
      s.engine.isRunning = true ∧ s.engine.now = target := by
  -- A round that takes time has a delay or a think time.
  have hlively : ∀ p ∈ profiles, 0 < delay.nanos + p.thinkPeriod.nanos := by
    intro p hp
    have hround := lively p hp
    have hcall := Clock.pause_pos_iff delay
    have hrest := Clock.pause_pos_iff p.thinkPeriod
    omega
  have hgoing : (start b config profiles).Going config profiles delay reply := going_start
  obtain ⟨s, hgoes, hthere, hnow⟩ :=
    exists_goes uniform hlively hrange hgoing (Nat.zero_le target)
  obtain ⟨enough, hslept⟩ := hgoes.runUntil
  exact ⟨s, .sleeps .start (hslept enough (Nat.le_refl _)), hthere.runs, hnow⟩

/-- **The load of a simulation** is that of the instant at which its owner tells it to end. -/
theorem Driven.loaded (accepted : Engine.check profiles = .ok ())
    (hsuccess : reply.outcome = .success) (uniform : b.Uniform delay reply)
    (h : Driven b config profiles s) (hruns : s.engine.isRunning = true) {fuel : Nat}
    (hfuel : (s.told true).engine.toDo < fuel) :
    ∃ last report, runUntil s.engine.now fuel (s.told true) = some last ∧
      last.engine.report? = some report ∧
        ∀ p ∈ profiles, p.Between delay s.engine.now → report.Loaded delay s.engine.now p := by
  obtain ⟨htold, hends⟩ := h.ends hruns
  obtain ⟨last, hlast, hsome⟩ := report_of_ends s.engine.now htold hends hfuel
  obtain ⟨report, hreport⟩ := Option.isSome_iff_exists.mp hsome
  refine ⟨last, report, hlast, hreport, fun p hp hbetween => ?_⟩
  -- The run up to the order to end, the order, and the run from there on.
  obtain ⟨⟨as₁, before, hbefore, hfirst⟩, -⟩ := h.serving hsuccess uniform
  have hengine : (s.told true).engine = { s.engine with status := .draining true s.engine.now } :=
    engine_stop hruns (Traffic.idle b.capacity)
  have hended : (s.told true).engine.isRunning = false := by
    rw [hengine]
    rfl
  obtain ⟨as₂, after, hafter, hsecond⟩ : (s.told true).engine.Serving delay last.engine :=
    ((goes_of_runUntil hlast).serving_ended htold hended).1
  have hstep : s.engine.step? (.stop true) = some ((s.told true).engine, []) := by
    rw [hengine]
    show s.engine.stop? true = _
    rw [Engine.stop?, if_pos hruns]
  have hstop : s.engine.run? (.stop true :: as₂) = some (last.engine, after) :=
    Engine.run?_cons_iff.mpr ⟨_, [], after, hstep, hafter, rfl⟩
  have hsuits : (Engine.start config profiles).Throughout (Engine.Serves delay)
      (as₁ ++ .stop true :: as₂) := by
    refine (Engine.throughout_append hbefore).mpr ⟨hfirst, ?_, fun next shown hnext => ?_⟩
    · exact Engine.serves_of_ne (fun _ _ hne => by cases hne) fun _ hne => by cases hne
    · rw [hstep] at hnext
      cases hnext
      exact hsecond
  exact Engine.loaded_of_stop accepted hbefore hstop hsuits hreport hp hbetween

end Simulation

namespace Engine

/-- **The load of calls that all take the same time.** A run in which every call goes well after the
    same delay, and that is told to end at an instant at which no call of a client returns, reports
    one request of each instance of the client for every return before, all of which went well
    after the delay in whole milliseconds. It does not matter what else there is, nor in which order
    things happen. A simulation against an endpoint that answers all calls alike, such as
    `MockEndpoint.fixed`, comes to every instant if every round takes time, and to such a report
    if it is told to end there. -/
theorem constant_load {config : EngineConfig} {profiles : List Profile}
    (accepted : Engine.check profiles = .ok ()) (delay : Span) :
    (∀ {as₁ as₂ : List Action} {mid e : Engine} {before after : List Event} {report : RunReport},
      (start config profiles).run? as₁ = some (mid, before) →
      mid.run? (.stop true :: as₂) = some (e, after) →
      (start config profiles).Throughout (Serves delay) (as₁ ++ .stop true :: as₂) →
      e.report? = some report →
        ∀ p ∈ profiles, p.Between delay mid.now → report.Loaded delay mid.now p) ∧
    ∀ {b : Behaviour} {reply : Reply}, b.Uniform delay reply → reply.outcome = .success →
      (∀ p ∈ profiles, 0 < Clock.pause delay + Clock.pause p.thinkPeriod) →
      (∀ t ≤ Clock.range, ∃ s : Simulation b, s.Driven b config profiles ∧
        s.engine.isRunning = true ∧ s.engine.now = t) ∧
      ∀ {s : Simulation b}, s.Driven b config profiles → s.engine.isRunning = true →
        ∀ fuel, (s.told true).engine.toDo < fuel → ∃ last report,
          Simulation.runUntil s.engine.now fuel (s.told true) = some last ∧
            last.engine.report? = some report ∧
              ∀ p ∈ profiles, p.Between delay s.engine.now →
                report.Loaded delay s.engine.now p := by
  -- The first part is about all runs of the engine, the second about the simulation.
  refine ⟨fun hbefore hafter hserves hreport p hp hbetween =>
    loaded_of_stop accepted hbefore hafter hserves hreport hp hbetween, ?_⟩
  intro b reply uniform hsuccess lively
  refine ⟨fun t hrange => Simulation.exists_driven uniform lively hrange, ?_⟩
  intro s hdriven hruns fuel hfuel
  exact hdriven.loaded accepted hsuccess uniform hruns hfuel

/-- Calls that take five milliseconds. -/
def fiveMillis : Behaviour := (MockEndpoint.fixed (Span.ofMillis 5)).behaviour 1

/-- The delay of these calls. -/
def fiveMillisDelay : Span := Span.ofSeconds (Span.ofMillis 5).toSeconds

/-- Two instances that think for five milliseconds, told to end after twenty-three: each of them has
    gone round twice. -/
theorem constant_load_thinkingPair :
    Engine.check [thinkingPair] = .ok () ∧ ∃ (s last : Simulation fiveMillis) (report : RunReport)
      (totals : Totals), s.Driven fiveMillis (.standard 1) [thinkingPair] ∧
        s.engine.now = 23000000 ∧
          Simulation.runUntil s.engine.now ((s.told true).engine.toDo + 1) (s.told true) =
            some last ∧
          last.engine.report? = some report ∧
            report.totals.lookup thinkingPair.id = some totals ∧
              totals.tally = ⟨4, 4, 0, 0⟩ ∧ totals.maxLatency.nanos = 5000000 := by
  have accepted := check_thinkingPair
  -- Both take five milliseconds.
  have hlatency : Clock.pause fiveMillisDelay = 5000000 := by decide +kernel
  have hrest : Clock.pause thinkingPair.thinkPeriod = 5000000 := by decide +kernel
  obtain ⟨hcomes, hloaded⟩ := (@constant_load (.standard 1) _ accepted fiveMillisDelay).2
    (MockEndpoint.uniform_fixed (Span.ofMillis 5) 1) rfl (by
      intro p hp
      rw [List.mem_singleton.mp hp, hlatency]
      omega)
  obtain ⟨s, hdriven, hruns, hnow⟩ := hcomes 23000000 (by decide +kernel)
  obtain ⟨last, report, hlast, hreport, hall⟩ := hloaded hdriven hruns _ (Nat.lt_succ_self _)
  have hbetween : thinkingPair.Between fiveMillisDelay s.engine.now := by
    refine ⟨fun j => ?_, ?_⟩
    · rw [hlatency, hrest, hnow]
      omega
    · rw [hnow]
      decide +kernel
  obtain ⟨totals, hlookup, heven⟩ := hall thinkingPair List.mem_cons_self hbetween
  -- Rounds of ten milliseconds end with a return after five and after fifteen.
  have htwice : returnsBefore 5000000 5000000 23000000 = 2 :=
    returnsBefore_eq fun j => by omega
  have hpair : thinkingPair.instances.toNat = 2 := rfl
  rw [hlatency, hrest, hnow, htwice, hpair] at heven
  exact ⟨accepted, s, last, report, totals, hdriven, hnow, hlast, hreport, hlookup, heven.tally,
    heven.maxLatency⟩

/-- One instance that thinks for more than thirty years. -/
def slowThinker : Profile := { Profile.blank 3 "a" with thinkTime := 1000000000 }

/-- The profile is accepted. -/
theorem check_slowThinker : Engine.check [slowThinker] = .ok () := by
  rw [Engine.check, validateAll_ok_iff]
  refine ⟨fun p hp => ?_, by decide⟩
  rw [List.mem_singleton.mp hp, Profile.validate_ok_iff]
  decide +kernel

/-- Nobody waits for more than thirty years: an instance that thinks for longer has gone round twice
    before its think time would be over. -/
theorem constant_load_fails :
    ∃ (s last : Simulation fiveMillis) (report : RunReport) (totals : Totals),
      s.Driven fiveMillis (.standard 1) [slowThinker] ∧ s.engine.now = 960000000000000000 ∧
        Simulation.runUntil s.engine.now ((s.told true).engine.toDo + 1) (s.told true) =
          some last ∧
        last.engine.report? = some report ∧ report.totals.lookup slowThinker.id = some totals ∧
          totals.tally.requests = 2 ∧
          slowThinker.instances.toNat * returnsBefore (Clock.ceilTick fiveMillisDelay.nanos)
            (Clock.ceilTick slowThinker.thinkPeriod.nanos) s.engine.now = 1 ∧
          ∀ j, s.engine.now ≠ j * (Clock.ceilTick fiveMillisDelay.nanos +
            Clock.ceilTick slowThinker.thinkPeriod.nanos) +
              Clock.ceilTick fiveMillisDelay.nanos := by
  have hlatency : Clock.pause fiveMillisDelay = 5000000 := by decide +kernel
  have hrest : Clock.pause slowThinker.thinkPeriod = 946080000000000000 := by decide +kernel
  -- What the wait takes, and what the think time asks for.
  have hlatency' : Clock.ceilTick fiveMillisDelay.nanos = 5000000 := by decide +kernel
  have hrest' : Clock.ceilTick slowThinker.thinkPeriod.nanos = 1000000000000000000 := by
    decide +kernel
  have huniform : fiveMillis.Uniform fiveMillisDelay (.ok ⟨some fiveMillisDelay⟩) :=
    MockEndpoint.uniform_fixed (Span.ofMillis 5) 1
  obtain ⟨s, hdriven, hruns, hnow⟩ : ∃ s : Simulation fiveMillis,
      s.Driven fiveMillis (.standard 1) [slowThinker] ∧ s.engine.isRunning = true ∧
        s.engine.now = 960000000000000000 := by
    refine Simulation.exists_driven huniform (fun p hp => ?_) (by decide +kernel)
    rw [List.mem_singleton.mp hp, hlatency]
    omega
  obtain ⟨last, report, hlast, hreport, hall⟩ :=
    hdriven.loaded check_slowThinker rfl huniform hruns (Nat.lt_succ_self _)
  have hbetween : slowThinker.Between fiveMillisDelay s.engine.now := by
    refine ⟨fun j => ?_, ?_⟩
    · rw [hlatency, hrest, hnow]
      omega
    · rw [hnow]
      decide +kernel
  obtain ⟨totals, hlookup, heven⟩ := hall slowThinker List.mem_cons_self hbetween
  -- After the wait of thirty years there is a second return. The think time would not be over.
  have htwice : returnsBefore 5000000 946080000000000000 960000000000000000 = 2 :=
    returnsBefore_eq fun j => by omega
  have honce : returnsBefore 5000000 1000000000000000000 960000000000000000 = 1 :=
    returnsBefore_eq fun j => by omega
  have hone : slowThinker.instances.toNat = 1 := rfl
  rw [hlatency, hrest, hnow, htwice, hone] at heven
  refine ⟨s, last, report, totals, hdriven, hnow, hlast, hreport, hlookup, ?_, ?_, fun j => ?_⟩
  · rw [heven.tally]
  · rw [hlatency', hrest', hnow, honce, hone]
  · rw [hlatency', hrest', hnow]
    omega

end Engine

end ClosedLoop
