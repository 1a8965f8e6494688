import ClosedLoop.Proofs.Engine.Stopping

namespace ClosedLoop

/-!
# What becomes of the requests in flight at the stop

A run on time that is told to end stays at that instant. What is in flight then and does not return
at the same instant is abandoned, and counts for nothing: neither in the totals nor in a snapshot.

* `Instance.CutsOff`, `Engine.run?_cutsOff` — a request that is abandoned is the last one of its
  instance, and nothing more is told of it;
* `Event.time?`, `Engine.Steps.at_stop`, `Engine.at_stop_only` — whatever is issued or returns after
  the order to end does so at that instant, and no record is lost;
* `Engine.Settled` — the account of the requests of a client at the end;
* `Engine.settles` — **every request is recorded or abandoned**.
-/

/-- When a request was issued or returned. -/
def Event.time? : Event → Option Nat
  | .issued _ t _ => some t
  | .returned _ t _ => some t
  | _ => none

/-! ### Abandoned requests -/

namespace Instance

/-- What the events of an instance tell of a request that it abandons. -/
structure CutsOff (i : Nat) (inst : Instance) (told : List Event) : Prop where
  /-- Of a request in flight nothing has been told since it was issued. -/
  awaiting : ∀ t cost, inst.phase = .awaiting t cost →
    ∃ earlier, told = earlier ++ [.issued i t cost]
  /-- Nothing is told of an abandoned one after that, and its instance has ended. -/
  abandoned : .quit i true ∈ told → inst.phase.isEnded ∧
    ∃ earlier t cost, told = earlier ++ [.issued i t cost, .quit i true]

variable {i now : Nat} {inst next : Instance} {told new : List Event}

/-- A move that neither issues nor abandons a request leaves nothing in flight. -/
private theorem CutsOff.of_not_awaiting (hphase : next.phase.isAwaiting = false)
    (hnone : .quit i true ∉ told ++ new) : next.CutsOff i (told ++ new) where
  awaiting t cost awaits := by rw [awaits] at hphase; cases hphase
  abandoned hmem := absurd hmem hnone

/-- Every move keeps what is told of abandoned requests. -/
theorem Moves.cutsOff (move : inst.Moves i now next new) (h : inst.CutsOff i told) :
    next.CutsOff i (told ++ new) := by
  by_cases hmem : .quit i true ∈ told
  · -- The instance has ended, and does nothing more.
    obtain ⟨rfl, rfl⟩ := move.eq_of_isEnded (h.abandoned hmem).1
    rwa [List.append_nil]
  cases move with
  | stays => rwa [List.append_nil]
  | issues =>
    refine ⟨fun t cost awaits => ?_, fun hquit => ?_⟩
    · cases awaits
      -- The request that is now awaited is the last event.
      exact ⟨told, rfl⟩
    · simp [hmem] at hquit
  -- Nothing is awaited afterwards, and nothing has been abandoned.
  | returns | records | crashes | ends =>
    exact .of_not_awaiting rfl (by simp [hmem])
  | @abandons issued cost awaits =>
    refine ⟨fun t cost hawaits => (by cases hawaits), fun _ => ⟨rfl, ?_⟩⟩
    -- The request was the last event before it was abandoned.
    obtain ⟨earlier, rfl⟩ := h.awaiting issued cost awaits
    exact ⟨earlier, issued, cost, by rw [List.append_assoc]; rfl⟩

end Instance

namespace Engine

variable {e e' mid next : Engine} {a : Action} {told new : List Event} {t : Nat}

/-- **A request that is abandoned is the last one of its instance**, and after that nothing is told
    of it: it does not return, and no record of it is handed over. -/
theorem run?_cutsOff {config : EngineConfig} {profiles : List Profile} {as : List Action}
    {events : List Event} (h : (start config profiles).run? as = some (e, events)) {i : Nat}
    (hmem : .quit i true ∈ events) : ∃ earlier t cost,
      eventsOf i events = earlier ++ [.issued i t cost, .quit i true] := by
  have hof : .quit i true ∈ eventsOf i events :=
    List.mem_filter.mpr ⟨hmem, by simp [Event.instance?]⟩
  cases found : e.instances[i]? with
  | some inst =>
    have hall : inst.CutsOff i (eventsOf i events) :=
      run?_instance_of_start (motive := fun inst told _ => inst.CutsOff i told) h found
        (fun first hfresh => ⟨fun t cost awaits => (by rw [hfresh] at awaits; cases awaits),
          fun hmem => (by cases hmem)⟩) fun hmid move _ => move.cutsOff hmid
    exact (hall.abandoned hof).2
  | none =>
    -- An event of a place without an instance does not occur.
    have hmissing := List.getElem?_eq_none_iff.mp found
    rw [run?_length_instances h] at hmissing
    rw [run?_eventsOf_eq_nil h hmissing] at hof
    cases hof

/-! ### After the order to end -/

/-- Requests are issued and return at the present. -/
theorem Steps.time_eq_now (h : Steps e a e' new) :
    ∀ event ∈ new, ∀ t, event.time? = some t → t = e.now := by
  intro event hmem t htime
  cases h with
  | issue | reply =>
    obtain rfl := List.mem_singleton.mp hmem
    cases htime
    rfl
  | record | crash | quit | cutNothing | cut | cutFails | receive | flush | finish =>
    obtain rfl := List.mem_singleton.mp hmem
    cases htime
  | send | leave | advance | stop | flushFails | sendFlushed => cases hmem

/-- After the flush nothing is issued, nothing returns and no record is lost. -/
theorem Afterwards.silent (h : Afterwards e e' new) :
    (∀ event ∈ new, event.time? = none) ∧ ∀ c, lostOf c new = [] := by
  cases h with
  | receive | finish =>
    refine ⟨fun event hmem => ?_, fun c => rfl⟩
    obtain rfl := List.mem_singleton.mp hmem
    rfl
  | advance | sendFlushed => exact ⟨fun event hmem => (by cases hmem), fun c => rfl⟩

/-- A run that stays at the instant of the order to end has gone well so far. -/
theorem Prompt.isClean (h : e.Prompt t) : e.status.isClean := by
  unfold Prompt at h
  split at h
  · rename_i hstatus
    rw [hstatus]
    rfl
  · rename_i hstatus
    rw [hstatus]
    exact h.1
  · rename_i hstatus
    rw [hstatus]
    exact h.1
  · exact h.elim

/-- Until there is a report a run on time stays at the instant `t` of the order to end, and after it
    nothing is issued, nothing returns and no record is lost. -/
theorem Steps.at_stop (h : Steps e a next new) (htimely : e.Timely a) (hends : e.Ends)
    (hprompt : e.Prompt t) (hquiet : e.status.isOver → e.isQuiet) :
    (e.now = t ∧ next.now = t) ∨
      (∀ event ∈ new, event.time? = none) ∧ ∀ c, lostOf c new = [] := by
  cases hreport : e.report? with
  | some report =>
    obtain ⟨elapsed, hstatus, -⟩ := report?_eq_some hreport
    have hover : e.status.isOver := by rw [hstatus]; rfl
    exact .inr (h.afterwards (hquiet hover) hover).silent
  | none =>
    have hnow := hprompt.now hreport
    refine .inl ⟨hnow, ?_⟩
    cases h with
    | advance later range =>
      -- Time may not pass as long as there is no report.
      have hsome := hends.report?_of_mayPass (htimely _ rfl)
      rw [hreport] at hsome
      cases hsome
    | _ => exact hnow

section Runs

variable {config : EngineConfig} {profiles : List Profile} {as₁ as₂ : List Action}
  {before after : List Event}

/-- Whatever is issued or returns after the order to end does so at that instant, and no record of a
    client is lost as long as its latencies can be added up. -/
theorem at_stop_only (accepted : Engine.check profiles = .ok ()) (patient : 0 < config.grace.nanos)
    (hbefore : (start config profiles).run? as₁ = some (mid, before))
    (hafter : mid.run? (.stop true :: as₂) = some (e, after))
    (hontime : mid.OnTime (.stop true :: as₂)) :
    (∀ event ∈ after, ∀ t, event.time? = some t → t = mid.now) ∧
      ∀ p ∈ profiles, p.FitsUntil mid.now → lostOf p.id (before ++ after) = [] := by
  obtain ⟨first, shown, later, hstop, hrest, rfl⟩ := run?_cons_iff.mp hafter
  cases steps_of_step? hstop with
  | stop runs =>
    have hclean : mid.status.isClean := by rw [runs]; rfl
    refine run?_induction_throughout (motive := fun _ told =>
      (∀ event ∈ told, ∀ t, event.time? = some t → t = mid.now) ∧
        ∀ p ∈ profiles, p.FitsUntil mid.now → lostOf p.id (before ++ told) = []) hrest
      (onTime_iff.mp (hontime.2 _ _ hstop)) ⟨fun _ hmem => (by cases hmem), fun p hp hfits => ?_⟩ ?_
    · rw [List.append_nil]
      exact lostOf_eq_nil accepted hbefore hclean hp hfits
    intro since e next a told new hsince hsuits ⟨htimes, hlost⟩ hstep htimely
    -- What is reached after the stop is reached from the start, and by a run on time.
    have hagain : mid.run? (.stop true :: since) = some (e, told) :=
      run?_cons_iff.mpr ⟨_, [], told, hstop, hsince, rfl⟩
    have hagainOnTime : mid.OnTime (.stop true :: since) := by
      refine ⟨timely_of_ne fun _ hne => (by cases hne), fun other events hother => ?_⟩
      rw [hstop] at hother
      cases hother
      exact onTime_iff.mpr hsuits
    have hwhole := run?_append hbefore hagain
    obtain ⟨hends, hprompt, -⟩ := prompt_of_stop patient hbefore hagain hagainOnTime
    rcases hstep.at_stop htimely hends hprompt (run?_quiet hwhole hprompt.isClean) with
      ⟨hnow, hnext⟩ | ⟨hsilent, hnone⟩
    · refine ⟨fun event hmem t htime => ?_, fun p hp hfits => ?_⟩
      · rcases List.mem_append.mp hmem with hold | hnew
        · exact htimes event hold t htime
        · exact (hstep.time_eq_now event hnew t htime).trans hnow
      · -- The run has come no further, so that everything can still be added up.
        have hgrace : 0 < e.grace.nanos := by
          rw [run?_grace hwhole]
          exact patient
        have hstill := (hstep.prompt htimely hends (fun _ => run?_dated hwhole) hgrace hprompt).1
        have hlonger := run?_append hwhole (run?_one (step?_of_steps hstep))
        rw [← List.append_assoc]
        exact lostOf_eq_nil accepted hlonger hstill.isClean hp (hnext ▸ hfits)
    · refine ⟨fun event hmem t htime => ?_, fun p hp hfits => ?_⟩
      · rcases List.mem_append.mp hmem with hold | hnew
        · exact htimes event hold t htime
        · rw [hsilent event hnew] at htime
          cases htime
      · rw [← List.append_assoc, lostOf_append, hlost p hp hfits, hnone, List.append_nil]

/-! ### The settlement -/

/-- What became of the requests of a client in a run that was told to end at the instant `stop`,
    with the events before and after that, its report and the totals of the client in it. -/
structure Settled (e : Engine) (p : Profile) (stop : Nat) (before after : List Event)
    (report : RunReport) (totals : Totals) : Prop where
  /-- Every request was counted, or it was in flight at the stop and abandoned. -/
  issued : (e.eventsFor p.id (before ++ after)).countP Event.isIssue =
    totals.tally.requests + (e.eventsFor p.id after).countP Event.isAbandon
  /-- No instance abandons more than one. -/
  abandoned : (e.eventsFor p.id after).countP Event.isAbandon ≤ p.instances.toNat
  /-- The totals count the requests that returned, each by its outcome. -/
  returned : totals.tally =
    let outcomes := outcomesOf (e.eventsFor p.id (before ++ after))
    ⟨outcomes.length, outcomes.count .success,
      outcomes.count .failure + outcomes.count .timeout, outcomes.count .timeout⟩
  /-- So do the snapshots. -/
  shown : ((report.snapshots.filter (·.client = p.id)).map Snapshot.tally).sum = totals.tally
  /-- Of the requests in flight when the run was told to end, and of those issued since, the ones
      that did not return any more were abandoned. -/
  stopped : ∃ n ≤ p.instances.toNat, InFlight (e.eventsFor p.id before) n ∧
    n + (e.eventsFor p.id after).countP Event.isIssue =
      (e.eventsFor p.id after).countP Event.isReturn +
        (e.eventsFor p.id after).countP Event.isAbandon
  /-- What was issued or returned since then, was so at the instant of the stop. -/
  late : ∀ event ∈ after, ∀ t, event.time? = some t → t = stop
  /-- A request that was abandoned is the last of its instance. It did not return, and no record of
      it was handed over. -/
  silent : ∀ i, .quit i true ∈ e.eventsFor p.id after → ∃ earlier t cost,
    eventsOf i (before ++ after) = earlier ++ [.issued i t cost, .quit i true]

variable {report : RunReport}

/-- The account of a client in a clean report, if none of its records was lost. -/
theorem settled_of_report (accepted : Engine.check profiles = .ok ())
    (hbefore : (start config profiles).run? as₁ = some (mid, before))
    (hafter : mid.run? (.stop true :: as₂) = some (e, after)) (hreport : e.report? = some report)
    (hclean : report.cleanShutdown = true) {p : Profile} (hp : p ∈ profiles)
    (hlate : ∀ event ∈ after, ∀ t, event.time? = some t → t = mid.now)
    (hlost : lostOf p.id (before ++ after) = []) : ∃ totals,
      report.totals.lookup p.id = some totals ∧ e.Settled p mid.now before after report totals := by
  have hrun := run?_append hbefore hafter
  obtain ⟨elapsed, hstatus, hat⟩ := report?_eq_some hreport
  obtain ⟨hok, -⟩ := underWay_of_report? hrun hreport hclean
  have hquiet := run?_quiet hrun hok (by rw [hstatus]; rfl)
  -- The account of the client agrees with the journal of the run.
  obtain ⟨a, ha⟩ := Option.isSome_iff_exists.mp ((e.ledger.account?_isSome_iff p.id).mpr
    ((run?_clients hrun p.id).mpr (List.mem_map.mpr ⟨p, hp, rfl⟩)))
  have htotals := ((run?_books hrun).keeps.known p.id a ha).totals
  have hreturned := tally_returned hrun hok hquiet p.id
  have hshown := tally_shown accepted hrun hreport hclean ha
  rw [hlost, show tallyOf [] = 0 from rfl, add_zero, ← htotals] at hreturned hshown
  obtain ⟨hnone, hstopped⟩ := stopped_of_isQuiet accepted hbefore hafter hquiet hp
  refine ⟨a.totals, ?_, ?_, ?_, ?_, hshown, hstopped, hlate, fun i hmem => ?_⟩
  · have hlookup := Accounts.lookup_map p.id (fun _ a => a.totals) e.ledger.accounts
    rw [← Ledger.account?, ha] at hlookup
    rw [hat]
    exact hlookup
  · -- What was issued returned or was abandoned, and what returned was counted.
    have hcount := congrArg Tally.requests hreturned
    rw [Tally.requests_of, length_outcomesOf] at hcount
    have hflight := inFlight_of_isQuiet hrun hquiet p.id
    rw [InFlight, hcount] at hflight
    rw [hflight, eventsFor_append, List.countP_append, hnone]
    omega
  · have hbroken := broken_le accepted hrun hp
    rw [eventsFor_append, List.countP_append, hnone, Nat.zero_add] at hbroken
    omega
  · rw [← hreturned, Tally.of_eq_counts]
  · exact run?_cutsOff hrun (List.mem_append_right _ (List.mem_of_mem_filter hmem))

/-- **Every request is recorded or abandoned.** Whatever the calls do, a run with any grace can be
    told to end at any instant and reaches its report without any time. If it is on time since then,
    the report tells of a clean end at that instant; the totals and the snapshots of a client count
    exactly the requests that returned, at that instant at the latest, and the others were abandoned
    and count for nothing, at most one of each instance. All that is asked for is that the latencies
    of the client can be added up. -/
theorem settles (accepted : Engine.check profiles = .ok ()) (patient : 0 < config.grace.nanos)
    (hbefore : (start config profiles).run? as₁ = some (mid, before))
    (runs : mid.isRunning = true) :
    (∃ as₂ e after, mid.run? (.stop true :: as₂) = some (e, after) ∧
      mid.OnTime (.stop true :: as₂) ∧ e.report?.isSome) ∧
    ∀ {as₂ : List Action} {e : Engine} {after : List Event} {report : RunReport},
      mid.run? (.stop true :: as₂) = some (e, after) → mid.OnTime (.stop true :: as₂) →
      e.report? = some report →
        report.cleanShutdown = true ∧ report.elapsed.nanos = mid.now ∧
          ∀ p ∈ profiles, p.FitsUntil mid.now → ∃ totals,
            report.totals.lookup p.id = some totals ∧
              e.Settled p mid.now before after report totals := by
  have hstep : mid.step? (.stop true) =
      some ({ mid with status := .draining true mid.now }, []) := by
    show mid.stop? true = _
    rw [stop?, if_pos runs]
  constructor
  · -- The order to end alone is a run on time, and it can be brought to its report from there.
    have hstop : mid.run? [.stop true] = some ({ mid with status := .draining true mid.now }, []) :=
      run?_one hstep
    have hontime : mid.OnTime [.stop true] :=
      ⟨timely_of_ne fun _ hne => (by cases hne), fun _ _ _ => trivial⟩
    obtain ⟨as, events, e, hrun, hturns, hsome⟩ :=
      (stopsAt_of_stop patient hbefore hstop hontime).finishes
    refine ⟨as, e, events, run?_cons_iff.mpr ⟨_, [], events, hstep, hrun, rfl⟩,
      ⟨timely_of_ne fun _ hne => (by cases hne), fun _ _ _ => ?_⟩, hsome⟩
    exact onTime_of_isPrompt fun a ha => Action.isPrompt_of_isTurn (hturns a ha)
  · intro as₂ e after report hafter hontime hreport
    obtain ⟨hclean, helapsed, -⟩ :=
      (stopsAt_of_stop patient hbefore hafter hontime).report report hreport
    -- What returned at the stop may be counted or not, and nothing is lost.
    obtain ⟨hlate, hlost⟩ := at_stop_only accepted patient hbefore hafter hontime
    refine ⟨hclean, helapsed, fun p hp hfits => ?_⟩
    exact settled_of_report accepted hbefore hafter hreport hclean hp hlate (hlost p hp hfits)

/-- Two instances that go round once before the run is told to end. One of them has a request in
    flight then that never returns; the other one's fails at the same instant. -/
def stoppedPair : List Action × List Action :=
  ([.issue 0, .issue 1, .advance 2000000, .reply 0 (.ok ⟨none⟩), .record 0, .advance 3000000,
    .reply 1 (.error (EndpointError.timeout "")), .record 1, .advance 10000000000, .issue 0,
    .cut 0, .send 0, .receive, .issue 1],
   [.reply 1 (.error (EndpointError.failure "")), .record 1, .quit 0, .quit 1, .leave 0,
    .flush true, .sendFlushed, .receive, .finish])

/-- One request of the client is abandoned, and three are counted. -/
theorem settles_stoppedPair :
    Engine.check [thinkingPair] = .ok () ∧ 0 < (EngineConfig.standard 1).grace.nanos ∧
      thinkingPair.FitsUntil 10000000000 ∧ ∃ mid before e after report,
        (start (.standard 1) [thinkingPair]).run? stoppedPair.1 = some (mid, before) ∧
          mid.isRunning = true ∧ mid.run? (.stop true :: stoppedPair.2) = some (e, after) ∧
            mid.OnTime (.stop true :: stoppedPair.2) ∧ e.report? = some report ∧
              report.elapsed.nanos = 10000000000 ∧
                (e.eventsFor thinkingPair.id after).countP Event.isAbandon = 1 ∧ ∃ totals,
                  report.totals.lookup thinkingPair.id = some totals ∧
                    totals.tally = ⟨3, 1, 2, 1⟩ ∧
                      e.Settled thinkingPair mid.now before after report totals := by
  have accepted := check_thinkingPair
  have patient : 0 < (EngineConfig.standard 1).grace.nanos := by decide +kernel
  have hfits : thinkingPair.FitsUntil 10000000000 := by unfold Profile.FitsUntil; decide
  -- The run up to the stop and the run from there are computed, with what they report.
  have hends : ((start (.standard 1) [thinkingPair]).run? stoppedPair.1).any (fun first =>
      first.1.isRunning && decide (first.1.now = 10000000000) &&
        (first.1.run? (.stop true :: stoppedPair.2)).any fun last =>
          decide ((last.1.eventsFor thinkingPair.id last.2).countP Event.isAbandon = 1) &&
            last.1.report?.any fun report =>
              (report.totals.lookup thinkingPair.id).all fun totals =>
                totals.tally = ⟨3, 1, 2, 1⟩) := by decide +kernel
  obtain ⟨⟨mid, before⟩, hbefore, hends⟩ := (Option.any_eq_true _ _).mp hends
  simp only [Bool.and_eq_true, decide_eq_true_eq] at hends
  obtain ⟨⟨hruns, hnow⟩, hends⟩ := hends
  obtain ⟨⟨e, after⟩, hafter, hends⟩ := (Option.any_eq_true _ _).mp hends
  rw [Bool.and_eq_true, decide_eq_true_eq] at hends
  obtain ⟨hquits, hends⟩ := hends
  obtain ⟨report, hreport, htally⟩ := (Option.any_eq_true _ _).mp hends
  have hontime : mid.OnTime (.stop true :: stoppedPair.2) :=
    ⟨timely_of_ne fun _ hne => (by cases hne), fun _ _ _ => onTime_of_isPrompt (by decide)⟩
  obtain ⟨-, hsettles⟩ := settles accepted patient hbefore hruns
  obtain ⟨-, helapsed, hsettled⟩ := hsettles hafter hontime hreport
  obtain ⟨totals, hlookup, hsettled⟩ := hsettled thinkingPair List.mem_cons_self (hnow ▸ hfits)
  rw [hlookup] at htally
  exact ⟨accepted, patient, hfits, mid, before, e, after, report, hbefore, hruns, hafter, hontime,
    hreport, helapsed.trans hnow, hquits, totals, hlookup, of_decide_eq_true htally, hsettled⟩

/-- Without the bound a request may be lost: three are issued and return, and two are counted. -/
theorem settles_fails :
    Engine.check [patientTrio] = .ok () ∧
      (start (.standard 1) [patientTrio]).OnTime longCalls ∧ ∃ mid before e after report totals,
        (start (.standard 1) [patientTrio]).run? longCalls = some (mid, before) ∧
          mid.run? [.stop true, .quit 0, .quit 1, .leave 0, .flush true, .sendFlushed, .receive,
            .finish] = some (e, after) ∧ e.report? = some report ∧
              report.cleanShutdown = true ∧ report.elapsed.nanos = mid.now ∧
                report.totals.lookup patientTrio.id = some totals ∧
                  (e.eventsFor patientTrio.id (before ++ after)).countP Event.isIssue = 3 ∧
                    totals.tally.requests = 2 ∧
                      (e.eventsFor patientTrio.id after).countP Event.isAbandon = 0 := by
  -- Of three calls that took as long as a span can be, the sum of the latencies has room for two.
  have hends : ((start (.standard 1) [patientTrio]).run? longCalls).any (fun first =>
      (first.1.run? [.stop true, .quit 0, .quit 1, .leave 0, .flush true, .sendFlushed, .receive,
        .finish]).any fun last => last.1.report?.any fun report =>
          (report.totals.lookup patientTrio.id).any fun totals =>
            report.cleanShutdown && decide (report.elapsed.nanos = first.1.now) &&
              decide ((last.1.eventsFor patientTrio.id (first.2 ++ last.2)).countP
                Event.isIssue = 3) && decide (totals.tally.requests = 2) &&
                  decide ((last.1.eventsFor patientTrio.id last.2).countP
                    Event.isAbandon = 0)) := by decide +kernel
  obtain ⟨⟨mid, before⟩, hbefore, hends⟩ := (Option.any_eq_true _ _).mp hends
  obtain ⟨⟨e, after⟩, hafter, hends⟩ := (Option.any_eq_true _ _).mp hends
  obtain ⟨report, hreport, hends⟩ := (Option.any_eq_true _ _).mp hends
  obtain ⟨totals, hlookup, hends⟩ := (Option.any_eq_true _ _).mp hends
  simp only [Bool.and_eq_true, decide_eq_true_eq] at hends
  obtain ⟨⟨⟨⟨hclean, helapsed⟩, hissued⟩, hcounted⟩, hnone⟩ := hends
  exact ⟨check_patientTrio, onTime_longCalls, mid, before, e, after, report, totals, hbefore,
    hafter, hreport, hclean, helapsed, hlookup, hissued, hcounted, hnone⟩

end Runs

end Engine

end ClosedLoop
