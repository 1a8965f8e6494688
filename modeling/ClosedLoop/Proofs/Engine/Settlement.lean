import ClosedLoop.Proofs.Engine.Cuts
import ClosedLoop.Proofs.Engine.Outcomes

namespace ClosedLoop

/-!
# The ledger at the end of a run

* `Engine.run?_closed`, `Engine.run?_taken` — the ledger is open until the flush, and refuses no
  record before;
* `Engine.run?_lost`, `Profile.FitsUntil`, `Engine.lostOf_eq_nil` — a record is lost only if the
  calls of its client took longer together than any span, which they do not as long as its instances
  times the time of the run fit into one;
* `Engine.run?_emptied` — after the flush no window has seen activity;
* `Engine.tally_returned`, `Engine.tally_shown` — what returned, what was counted and what is shown
  differ by the lost records only;
* `Engine.clean_of_inTime` — a run that is flushed within the grace is flushed cleanly;
* `Engine.stopped_of_isQuiet` — what is in flight at the stop and does not return is abandoned.
-/

/-- The instances of a profile were not there for longer together than any span, up to `now`. Then
    their latencies can be added up. -/
def Profile.FitsUntil (p : Profile) (now : Nat) : Prop :=
  p.instances.toNat * now < UInt64.size * 1000000000

namespace Engine

variable {e e' : Engine} {a : Action} {told new : List Event}

/-! ### Steps -/

/-- Steps keep the clients of the ledger. -/
theorem Steps.clients (h : Steps e a e' new) : e'.ledger.clients = e.ledger.clients := by
  cases h with
  | record | crash => exact Ledger.clients_record _ _
  | cutNothing | cut | cutFails => exact Ledger.clients_take _ _ _
  | flush | flushFails => exact Ledger.clients_flush _ _
  | _ => rfl

/-- As long as nothing goes wrong, the ledger is closed when it is flushed. -/
theorem Steps.closed (h : Steps e a e' new) (hclean : e'.status.isClean)
    (hclosed : e.ledger.closed = e.status.isOver) : e'.ledger.closed = e'.status.isOver := by
  cases h with
  | record | crash => exact (Ledger.closed_record _ _).trans hclosed
  | cutNothing | cut | cutFails => exact (Ledger.closed_take _ _ _).trans hclosed
  | flush => rfl
  | flushFails => cases hclean
  | stop status | sendFlushed status | finish status => exact hclosed.trans (by rw [status]; rfl)
  | _ => exact hclosed

/-- An engine that is running has been running before, and no request was abandoned. -/
theorem Steps.running (h : Steps e a e' new) (hruns : e'.status = .running) :
    e.status = .running ∧ new.countP Event.isAbandon = 0 := by
  cases h with
  | quit told found turn =>
    have hstatus : e.status = .running := hruns
    rw [isRunning, hstatus] at told
    cases told
  | stop | flush | flushFails | sendFlushed | finish => cases hruns
  | _ => exact ⟨hruns, rfl⟩

/-- After the end nothing is recorded. -/
theorem Afterwards.ledger (h : Afterwards e e' new) : e'.ledger = e.ledger := by
  cases h <;> rfl

/-- The run was told to end at `since`. If the ledger was flushed, then cleanly or not before the
    grace was over. -/
def ToldAt (e : Engine) (since : Nat) : Prop :=
  match e.status with
  | .running => False
  | .draining _ t => t = since
  | .flushing clean elapsed _ => (clean = true ∨ since + e.grace.nanos ≤ elapsed) ∧ elapsed ≤ e.now
  | .finished clean elapsed => (clean = true ∨ since + e.grace.nanos ≤ elapsed) ∧ elapsed ≤ e.now
  | .failed _ => True

/-- The instant of the order to end stays the same. -/
theorem Steps.toldAt {since : Nat} (h : Steps e a e' new) (hsince : e.ToldAt since) :
    e'.ToldAt since := by
  cases h with
  | stop runs =>
    rw [ToldAt, runs] at hsince
    exact hsince.elim
  -- A flush that is not clean has waited until the grace was over.
  | @flush clean t left drains ripe kept =>
    rw [ToldAt, drains] at hsince
    obtain rfl : t = since := hsince
    refine ⟨?_, Nat.le_refl _⟩
    cases clean with
    | true => exact Or.inl rfl
    | false => exact Or.inr (of_decide_eq_true ripe)
  | flushFails => trivial
  | sendFlushed flushes | finish flushes =>
    rw [ToldAt, flushes] at hsince
    exact hsince
  | advance later range =>
    unfold ToldAt at hsince ⊢
    cases hs : e.status with
    | flushing clean elapsed left =>
      rw [hs] at hsince
      exact ⟨hsince.1, Nat.le_trans hsince.2 later⟩
    | finished clean elapsed =>
      rw [hs] at hsince
      exact ⟨hsince.1, Nat.le_trans hsince.2 later⟩
    | running | draining | failed => rw [hs] at hsince; exact hsince
  | _ => exact hsince

/-- Steps keep the grace. -/
theorem Steps.grace (h : Steps e a e' new) : e'.grace = e.grace := by
  cases h <;> rfl

/-! ### Every run -/

section Runs

variable {config : EngineConfig} {profiles : List Profile} {as : List Action} {events : List Event}

/-- The grace period stays the same. -/
theorem run?_grace (h : e.run? as = some (e', events)) : e'.grace = e.grace :=
  run?_induction (motive := fun mid _ => mid.grace = e.grace) h rfl
    fun hmid hstep => hstep.grace.trans hmid

/-- The clients of the ledger are those of the profiles. -/
theorem run?_clients (h : (start config profiles).run? as = some (e, events)) (c : ClientId) :
    c ∈ e.ledger.clients ↔ c ∈ profiles.map Profile.id := by
  have hsame : e.ledger.clients = (start config profiles).ledger.clients :=
    run?_induction (motive := fun mid _ => mid.ledger.clients = _) h rfl
      fun hmid hstep => hstep.clients.trans hmid
  rw [hsame]
  exact Ledger.mem_clients_openFor profiles Span.zero c

/-- In a clean run the ledger is closed when the run is over. -/
theorem run?_closed (h : (start config profiles).run? as = some (e, events))
    (hclean : e.status.isClean) : e.ledger.closed = e.status.isOver := by
  refine run?_induction (motive := fun mid _ => mid.status.isClean →
    mid.ledger.closed = mid.status.isOver) h (fun _ => rfl) ?_ hclean
  intro mid next a told new hmid hstep hclean
  exact hstep.closed hclean (hmid (hstep.isClean hclean))

/-- As long as nothing goes wrong, no record is refused. -/
theorem run?_taken (h : (start config profiles).run? as = some (e, events))
    (hclean : e.status.isClean) : ∀ i record, .recorded i record (.ok false) ∉ events := by
  refine run?_induction_along (motive := fun mid told => mid.status.isClean →
    ∀ i record, .recorded i record (.ok false) ∉ told) h (fun _ _ _ hmem => by cases hmem) ?_ hclean
  intro before mid next a told new hbefore hmid hstep hclean i record hmem
  have hearlier := hstep.isClean hclean
  rcases List.mem_append.mp hmem with hmem | hmem
  · exact hmid hearlier i record hmem
  · cases hstep with
    | @record j inst _ held taken found turn kept =>
      obtain ⟨holds, -⟩ := Instance.handOver?_eq_some turn
      have hopen : mid.ledger.closed = false := by
        rw [run?_closed hbefore hearlier, ← Bool.not_eq_true]
        intro hover
        -- Everything would have ended by now.
        have hended := isEnded_of_isQuiet (run?_quiet hbefore hearlier hover) found
        rw [holds] at hended
        cases hended
      have hknown : held.client ∈ mid.ledger.clients := by
        rw [(run?_settles hbefore found).holds held holds, run?_clients hbefore]
        exact List.mem_map.mpr ⟨inst.profile, (profile_of_run? hbefore found).1, rfl⟩
      have htaken : taken = true := Ledger.record_taken kept hopen hknown
      subst htaken
      simp at hmem
    | _ => simp at hmem

/-- A record is lost only if the calls of its client took longer together than any span. -/
theorem run?_lost (h : (start config profiles).run? as = some (e, events)) (c : ClientId)
    (hlost : ((journalOf events).of c).lost ≠ []) :
    UInt64.size * 1000000000 ≤
      (((journalOf events).of c).counted.map (·.latency.nanos)).sum +
        (((journalOf events).of c).lost.map (·.latency.nanos)).sum := by
  refine run?_induction_along (motive := fun _ told => ((journalOf told).of c).lost ≠ [] →
    UInt64.size * 1000000000 ≤ (((journalOf told).of c).counted.map (·.latency.nanos)).sum +
      (((journalOf told).of c).lost.map (·.latency.nanos)).sum) h
    (fun hlost => absurd rfl hlost) ?_ hlost
  intro before mid next a told new hbefore hmid hstep hlost
  have hbooks := run?_books hbefore
  rw [journalOf_append, Journal.of_append, Journal.counted_append, Journal.lost_append,
    List.map_append, List.map_append, List.sum_append, List.sum_append]
  rw [journalOf_append, Journal.of_append, Journal.lost_append] at hlost
  by_cases hnew : ((journalOf new).of c).lost = []
  · -- Nothing was lost in this step, so something was lost before.
    rw [hnew, List.append_nil] at hlost
    have hearlier := hmid hlost
    omega
  · cases hstep with
    -- The window has added up latencies of counted records only, and this one breaks the sum.
    | @crash j inst _ held fault found turn kept =>
      rw [journalOf_singleton, Event.entry, Journal.of_ofRecord] at hnew ⊢
      by_cases hc : c = (held.completedBy mid.reading).client
      · rw [if_pos hc]
        obtain ⟨account, haccount, hsum⟩ := Ledger.record_lost kept
        rw [← hc] at haccount
        have hwindow := (hbooks.keeps.known c account haccount).latencySum
        have hover := Span.size_le_of_add?_eq_none hsum
        simp only [Journal.ofRecord, List.map_nil, List.map_cons, List.sum_nil, List.sum_cons]
        omega
      · rw [if_neg hc] at hnew
        exact absurd rfl hnew
    | @record j inst _ held taken found turn kept =>
      rw [journalOf_singleton, Event.entry, Journal.of_ofRecord] at hnew
      refine absurd ?_ hnew
      cases taken <;> split <;> rfl
    | _ => exact absurd rfl hnew

/-- As long as nothing goes wrong, no window has seen activity after the flush. -/
theorem run?_emptied (h : (start config profiles).run? as = some (e, events))
    (hclean : e.status.isClean) (hover : e.status.isOver) :
    e.ledger.Windows fun w => w.tally = 0 := by
  refine run?_induction_along (motive := fun mid _ => mid.status.isClean → mid.status.isOver →
    mid.ledger.Windows fun w => w.tally = 0) h (fun _ hover => by cases hover) ?_ hclean hover
  intro before mid next a told new hbefore hmid hstep hclean hover
  have hearlier := hstep.isClean hclean
  by_cases hdone : mid.status.isOver
  · rw [(hstep.afterwards (run?_quiet hbefore hearlier hdone) hdone).ledger]
    exact hmid hearlier hdone
  · obtain ⟨clean, left, -, kept, -, rfl⟩ := hstep.flush_of_isOver hdone hover
    exact Ledger.Windows.flush rfl kept

/-- No request is abandoned while the engine is running. -/
theorem run?_running (h : (start config profiles).run? as = some (e, events))
    (hruns : e.status = .running) : events.countP Event.isAbandon = 0 := by
  refine run?_induction (motive := fun mid told => mid.status = .running →
    told.countP Event.isAbandon = 0) h (fun _ => rfl) ?_ hruns
  intro mid next a told new hmid hstep hruns
  obtain ⟨hearlier, hnone⟩ := hstep.running hruns
  rw [List.countP_append, hmid hearlier, hnone]

end Runs

/-! ### Lost records -/

/-- The records of a client that were lost, because a sum of latencies left the range of spans. -/
def lostOf (c : ClientId) (events : List Event) : List Record := ((journalOf events).of c).lost

/-- The records that are lost in two parts of a run are lost in one or the other. -/
theorem lostOf_append (c : ClientId) (before after : List Event) :
    lostOf c (before ++ after) = lostOf c before ++ lostOf c after := by
  rw [lostOf, journalOf_append, Journal.of_append, Journal.lost_append]
  rfl

/-- Nothing is lost unless the instances were there for longer together than any span. -/
theorem size_le_of_lost {config : EngineConfig} {profiles : List Profile} {as : List Action}
    {events : List Event} (accepted : Engine.check profiles = .ok ())
    (h : (start config profiles).run? as = some (e, events)) (hclean : e.status.isClean)
    {p : Profile} (hp : p ∈ profiles) (hlost : lostOf p.id events ≠ []) :
    UInt64.size * 1000000000 ≤ p.instances.toNat * e.now := by
  have hspent := spent_le accepted h hp
  rw [sum_onRecord _ p.id (fun _ _ _ => client_of_recorded h) (run?_taken h hclean)] at hspent
  exact Nat.le_trans (run?_lost h p.id hlost) hspent

/-- Nothing is lost as long as the latencies can be added up. -/
theorem lostOf_eq_nil {config : EngineConfig} {profiles : List Profile} {as : List Action}
    {events : List Event} (accepted : Engine.check profiles = .ok ())
    (h : (start config profiles).run? as = some (e, events)) (hclean : e.status.isClean)
    {p : Profile} (hp : p ∈ profiles) (hfits : p.FitsUntil e.now) : lostOf p.id events = [] := by
  by_contra hlost
  exact Nat.not_lt.mpr (size_le_of_lost accepted h hclean hp hlost) hfits

section Clean

variable {config : EngineConfig} {profiles : List Profile} {as : List Action} {events : List Event}
  {report : RunReport}

/-- The report of a run shows the time of the flush. -/
theorem elapsed_of_report? (h : (start config profiles).run? as = some (e, events))
    (hreport : e.report? = some report) {elapsed : Nat}
    (hstatus : e.status = .finished report.cleanShutdown elapsed) (hnow : elapsed ≤ e.now) :
    report.elapsed.nanos = elapsed := by
  obtain ⟨elapsed', hstatus', hat⟩ := report?_eq_some hreport
  rw [hstatus] at hstatus'
  cases hstatus'
  rw [hat]
  exact nanos_reading (Nat.le_trans hnow (run?_books h).now_le)

/-- Once everything has ended, the requests that returned are those with a record. -/
theorem tally_returned (h : (start config profiles).run? as = some (e, events))
    (hclean : e.status.isClean) (hq : e.isQuiet) (c : ClientId) :
    Tally.of (outcomesOf (e.eventsFor c events)) =
      tallyOf ((journalOf events).of c).counted + tallyOf (lostOf c events) := by
  rw [← sum_returnedTally, returned_of_isQuiet h hq,
    sum_onRecord _ c (fun _ _ _ => client_of_recorded h) (run?_taken h hclean), ← tallyOf_eq_sum,
    ← tallyOf_eq_sum]
  rfl

/-- The snapshots in a report count the records of their client. -/
theorem tally_shown (accepted : Engine.check profiles = .ok ())
    (h : (start config profiles).run? as = some (e, events)) (hreport : e.report? = some report)
    (hclean : report.cleanShutdown = true) {c : ClientId} {a : Account}
    (ha : e.ledger.account? c = some a) :
    ((report.snapshots.filter (·.client = c)).map Snapshot.tally).sum =
      tallyOf ((journalOf events).of c).counted + tallyOf (lostOf c events) := by
  obtain ⟨elapsed, hstatus, hat⟩ := report?_eq_some hreport
  obtain ⟨hok, hboard⟩ := underWay_of_report? h hreport hclean
  -- The window is empty after the flush, so that the snapshots have all of the counters.
  have hempty : a.window.tally = 0 :=
    run?_emptied h hok (by rw [hstatus]; rfl) c a ha
  have hwindow := ((run?_books h).keeps.known c a ha).window
  rw [hempty, add_zero] at hwindow
  rw [hat]
  show ((e.board.filter (·.client = c)).map Snapshot.tally).sum = _
  rw [← hboard, run?_order accepted h hok]
  exact hwindow

end Clean

section Told

variable {config : EngineConfig} {profiles : List Profile} {as₁ as₂ : List Action} {mid : Engine}
  {before after : List Event} {report : RunReport}

/-- A run can be told to end only while it goes on, and is told the time of that. -/
theorem toldAt_of_stop (h : mid.run? (.stop true :: as₂) = some (e, after)) :
    mid.status = .running ∧ e.ToldAt mid.now := by
  obtain ⟨next, first, later, hstep, hrest, -⟩ := run?_cons_iff.mp h
  cases steps_of_step? hstep with
  | stop runs =>
    exact ⟨runs, run?_induction (motive := fun e _ => e.ToldAt mid.now) hrest rfl
      fun hmid hstep => hstep.toldAt hmid⟩

/-- A run that is flushed before its grace is over is flushed cleanly. -/
theorem clean_of_inTime (hbefore : (start config profiles).run? as₁ = some (mid, before))
    (hafter : mid.run? (.stop true :: as₂) = some (e, after)) (hreport : e.report? = some report)
    (intime : report.elapsed.nanos < mid.now + config.grace.nanos) :
    report.cleanShutdown = true := by
  obtain ⟨elapsed, hstatus, -⟩ := report?_eq_some hreport
  have hrun := run?_append hbefore hafter
  have htold := (toldAt_of_stop hafter).2
  rw [ToldAt, hstatus, run?_grace hrun] at htold
  -- A flush that is not clean would have come after the grace.
  obtain ⟨hclean | hlate, hnow⟩ := htold
  · exact hclean
  · rw [elapsed_of_report? hrun hreport hstatus hnow] at intime
    exact absurd hlate (Nat.not_le.mpr intime)

/-- Of the requests in flight at the stop, those that do not return any more are abandoned. -/
theorem stopped_of_isQuiet (accepted : Engine.check profiles = .ok ())
    (hbefore : (start config profiles).run? as₁ = some (mid, before))
    (hafter : mid.run? (.stop true :: as₂) = some (e, after)) (hq : e.isQuiet) {p : Profile}
    (hp : p ∈ profiles) : (e.eventsFor p.id before).countP Event.isAbandon = 0 ∧
      ∃ n ≤ p.instances.toNat, InFlight (e.eventsFor p.id before) n ∧
        n + (e.eventsFor p.id after).countP Event.isIssue =
          (e.eventsFor p.id after).countP Event.isReturn +
            (e.eventsFor p.id after).countP Event.isAbandon := by
  -- Nobody was told to end before the stop.
  have hnone : (e.eventsFor p.id before).countP Event.isAbandon = 0 := by
    have hall := run?_running hbefore (toldAt_of_stop hafter).1
    rw [List.countP_eq_zero] at hall ⊢
    exact fun event hmem => hall event (List.mem_of_mem_filter hmem)
  obtain ⟨n, hn, hstop⟩ := inFlight_client accepted hbefore hp
  have hwhere : mid.eventsFor p.id before = e.eventsFor p.id before := by
    unfold eventsFor
    rw [clientAt?_run? hafter]
  rw [hwhere] at hstop
  refine ⟨hnone, n, hn, hstop, ?_⟩
  have hflight := inFlight_of_isQuiet (run?_append hbefore hafter) hq p.id
  rw [InFlight] at hflight hstop
  rw [eventsFor_append, List.countP_append, List.countP_append, List.countP_append] at hflight
  omega

end Told

end Engine

end ClosedLoop
