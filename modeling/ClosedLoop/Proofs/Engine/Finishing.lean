import ClosedLoop.Proofs.Engine.Dates
import ClosedLoop.Proofs.Engine.OnTime

namespace ClosedLoop

/-!
# Finishing a run

A run that was told to end has something to do until it has its report, and less with every turn.

* `Engine.IsEnding`, `Engine.finished_or_failed` — a run that was told to end, and how it may end
  up;
* `Simulation.stop?_finished` — a simulation that is told to end is finished, for nothing can fail
  in it;
* `Engine.toDo`, `Engine.Winds`, `Engine.Steps.toDo_lt` — how much is left to do, and which actions
  leave less of it;
* `Engine.Ends.exists_winds`, `Engine.Ends.finishes` — there is such an action until there is the
  report, so the report can be reached without replies and without time;
* `Simulation.report_of_ends` — a simulation reaches it.
-/

/-- How many turns an instance takes at most to its end. -/
def Phase.toDo : Phase → Nat
  | fresh => 2
  | recording _ => 2
  | resting _ => 1
  | awaiting _ _ => 1
  | stopped => 0
  | crashed => 0

/-- How many turns a monitor takes at most to its end, its snapshot being received included. -/
def Monitor.toDo (m : Monitor) : Nat :=
  match m.phase with
  | .sending _ _ => 3
  | .stopped => 0
  | _ => 1

/-- How many turns it takes at most to flush so many accounts and to finish. -/
def Status.toDo (accounts : Nat) : Status → Nat
  | .draining _ _ => 2 * accounts + 2
  | .flushing _ _ left => 2 * left.length + 1
  | _ => 0

namespace Engine

variable {e e' : Engine} {a : Action} {new : List Event}

/-! ### A run that is told to end -/

/-- The run was told to end, and its ledger is flushed then. -/
def IsEnding (e : Engine) : Prop :=
  match e.status with
  | .running => False
  | .draining flushes _ => flushes = true
  | _ => True

/-- A run that goes on has the status of one. -/
theorem status_of_isRunning (h : e.isRunning = true) : e.status = .running := by
  unfold isRunning at h
  split at h
  · assumption
  · cases h

/-- A run goes on until it is told to end. -/
theorem Steps.isRunning_of_isOwn {last : Nat} (h : Steps e a e' new) (ha : a.isOwn last)
    (hrun : e.isRunning = true) : e'.isRunning = true := by
  cases h with
  | stop => cases ha
  | flush drains | flushFails drains => rw [isRunning, drains] at hrun; cases hrun
  | sendFlushed flushes | finish flushes => rw [isRunning, flushes] at hrun; cases hrun
  | _ => exact hrun

/-- A run that was told to end never goes back. -/
theorem Steps.isEnding (h : Steps e a e' new) (hend : e.IsEnding) : e'.IsEnding := by
  cases h with
  | stop runs => rw [IsEnding, runs] at hend; cases hend
  | flush | flushFails | sendFlushed | finish => exact trivial
  | _ => exact hend

/-- A run that ends does not go on. -/
theorem IsEnding.not_isRunning (h : e.IsEnding) : e.isRunning = false := by
  unfold isRunning
  split
  next hstatus => rw [IsEnding, hstatus] at h; cases h
  next => rfl

/-- An ending run in which nothing is left to do is finished or has failed. -/
theorem finished_or_failed (hend : e.IsEnding) (hclosing : e.closing? = none) :
    (∃ clean elapsed, e.status = .finished clean elapsed) ∨ ∃ fault, e.status = .failed fault := by
  obtain ⟨-, -, hdraining, hflushing⟩ := ended_of_closing? hend.not_isRunning hclosing
  cases hstatus : e.status with
  | running => rw [IsEnding, hstatus] at hend; cases hend
  | draining flushes since =>
    rw [IsEnding, hstatus] at hend
    have hflushes : flushes = true := hend
    exact absurd (hflushes ▸ hstatus) (hdraining since)
  | flushing clean elapsed left => exact absurd hstatus (hflushing clean elapsed left)
  | finished clean elapsed => exact .inl ⟨clean, elapsed, rfl⟩
  | failed fault => exact .inr ⟨fault, rfl⟩

/-! ### What is left to do -/

/-- No time passes with what happens at once. -/
theorem Steps.now_of_isPrompt (h : Steps e a e' new) (ha : a.isPrompt) : e'.now = e.now := by
  cases h with
  | advance => cases ha
  | _ => rfl

/-- Steps keep the room of the channel. -/
theorem Steps.room (h : Steps e a e' new) : e'.room = e.room := by
  cases h <;> rfl

/-- How many turns are left at most to the report of a run that was told to end. -/
def toDo (e : Engine) : Nat :=
  (e.instances.map (·.phase.toDo)).sum + (e.monitors.map Monitor.toDo).sum + e.channel.length +
    e.status.toDo e.ledger.accounts.length

/-- Does the action bring a run that was told to end closer to its report? Requests only do so if
    they are the first of their instance, which cannot be told to end earlier. -/
def Winds (e : Engine) : Action → Prop
  | .issue i => ∃ inst, e.instances[i]? = some inst ∧ inst.phase = .fresh
  | .cut _ => False
  | a => a.isTurn

/-- What winds a run up is the turn of someone. -/
theorem Winds.isTurn (h : e.Winds a) : a.isTurn := by
  cases a with
  | cut m => cases h
  | issue i => rfl
  | _ => exact h

/-- Replacing an item changes a sum by as much as the item changes. -/
theorem sum_map_set {α : Type} (f : α → Nat) {l : List α} {i : Nat} {x : α}
    (found : l[i]? = some x) (y : α) :
    ((l.set i y).map f).sum + f x = (l.map f).sum + f y := by
  induction l generalizing i with
  | nil => cases found
  | cons z rest ih =>
    -- The sum changes at the place of the item, or further back.
    cases i with
    | zero =>
      cases found
      simp only [List.set_cons_zero, List.map_cons, List.sum_cons]
      omega
    | succ i =>
      have hrest := ih (i := i) found
      simp only [List.set_cons_succ, List.map_cons, List.sum_cons]
      omega

/-- Less is left to do when less is left to an instance. -/
private theorem toDo_setInstance {i : Nat} {inst next : Instance}
    (found : e.instances[i]? = some inst) (hless : next.phase.toDo < inst.phase.toDo) :
    (e.setInstance i next).toDo < e.toDo := by
  have hsum := sum_map_set (fun inst : Instance => inst.phase.toDo) found next
  simp only [toDo, setInstance]
  omega

/-- Less is left to do when less is left to a monitor. -/
private theorem toDo_setMonitor {m : Nat} {monitor next : Monitor}
    (found : e.monitors[m]? = some monitor) (hless : next.toDo < monitor.toDo) :
    (e.setMonitor m next).toDo < e.toDo := by
  have hsum := sum_map_set Monitor.toDo found next
  simp only [toDo, setMonitor]
  omega

/-- A record makes no new account. -/
theorem length_accounts_record (l : Ledger) (r : Record) :
    (l.record r).1.accounts.length = l.accounts.length := by
  have hclients := congrArg List.length (l.clients_record r)
  rwa [Ledger.clients, Ledger.clients, List.length_map, List.length_map] at hclients

/-- Handing over a record leaves less to do, as its instance has less to do. -/
private theorem toDo_record {i : Nat} {inst next : Instance} (r : Record)
    (found : e.instances[i]? = some inst) (hless : next.phase.toDo < inst.phase.toDo) :
    ({ e with ledger := (e.ledger.record r).1 }.setInstance i next).toDo < e.toDo := by
  have hsame : ({ e with ledger := (e.ledger.record r).1 } : Engine).toDo = e.toDo := by
    simp only [toDo, length_accounts_record]
  rw [← hsame]
  exact toDo_setInstance (e := { e with ledger := (e.ledger.record r).1 }) found hless

/-- A flush shows no more snapshots than there are accounts. -/
theorem length_flush_le {l : Ledger} {now : Span} {left : List Snapshot}
    (kept : (l.flush now).2 = .ok left) : left.length ≤ l.accounts.length := by
  have hcut : (l.accounts.cutAll now).2 = .ok left := kept
  obtain ⟨-, rfl, -⟩ := Accounts.cutAll_ok hcut
  have hsublist := (Accounts.clients_shownBy_sublist now l.accounts).length_le
  rwa [List.length_map, List.length_map] at hsublist

/-- **Such an action leaves less to do.** -/
theorem Steps.toDo_lt (h : Steps e a e' new) (ha : e.Winds a) : e'.toDo < e.toDo := by
  cases h with
  | issue found turn =>
    obtain ⟨inst, hfound, hfresh⟩ := ha
    rw [found, Option.some.injEq] at hfound
    subst hfound
    refine toDo_setInstance found ?_
    cases Instance.moves_of_issue? (i := 0) turn with
    | issues => simp [Phase.toDo, hfresh]
  | record found turn kept =>
    obtain ⟨holds, rfl⟩ := Instance.handOver?_eq_some turn
    exact toDo_record _ found (by simp [Phase.toDo, holds])
  | crash found turn kept =>
    obtain ⟨holds, -⟩ := Instance.handOver?_eq_some turn
    exact toDo_record _ found (by simp [Phase.toDo, holds, Instance.crash])
  | quit told found turn =>
    obtain ⟨⟨issued, cost, awaits⟩ | ⟨wake, rests⟩, rfl⟩ := Instance.quit?_eq_some turn
    · exact toDo_setInstance found (by simp [Phase.toDo, awaits])
    · exact toDo_setInstance found (by simp [Phase.toDo, rests])
  -- The snapshot goes to the channel, which costs less than it did to hold it.
  | @send m tick monitor s room found holds =>
    have hsum := sum_map_set Monitor.toDo found { monitor with phase := .waiting tick }
    have hbefore : monitor.toDo = 3 := by rw [Monitor.toDo, holds]
    have hafter : ({ monitor with phase := .waiting tick } : Monitor).toDo = 1 := rfl
    simp only [toDo, setMonitor, push, List.length_append, List.length_singleton]
    omega
  | leave told found turn =>
    obtain ⟨⟨tick, waits⟩ | parked, rfl⟩ := Monitor.quit?_eq_some turn
    · exact toDo_setMonitor found (by simp [Monitor.toDo, waits])
    · exact toDo_setMonitor found (by simp [Monitor.toDo, parked])
  | receive front =>
    simp only [toDo, report, front, List.length_cons]
    omega
  | flush drains ripe kept =>
    have hlength := length_flush_le kept
    simp only [toDo, drains, Status.toDo]
    omega
  | flushFails drains ripe kept =>
    simp only [toDo, drains, Status.toDo]
    omega
  | sendFlushed flushes room =>
    simp only [toDo, push, flushes, Status.toDo, List.length_append, List.length_cons,
      List.length_nil]
    omega
  | finish flushes drained left =>
    simp only [toDo, flushes, Status.toDo]
    omega
  | reply | cutNothing | cut | cutFails | advance | stop => cases ha

/-! ### To the report -/

/-- The run was told to end, nothing has gone wrong, and the channel has room. -/
structure Ends (e : Engine) : Prop where
  ending : e.IsEnding
  dated : ∃ last, e.Dated last
  room : 0 < e.room

/-- A turn lets a run that ends go on to end. -/
theorem Steps.ends (h : Steps e a e' new) (ha : a.isTurn) (hends : e.Ends) : e'.Ends where
  ending := h.isEnding hends.ending
  dated := by
    obtain ⟨last, hdated⟩ := hends.dated
    refine ⟨last, h.dated ?_ hdated⟩
    rw [h.now_of_isPrompt (Action.isPrompt_of_isTurn ha)]
    exact hdated.now_le
  room := h.room ▸ hends.room

/-- An ending run has its report when nothing is left to do. -/
theorem Ends.report?_isSome (h : e.Ends) (hclosing : e.closing? = none) : e.report?.isSome := by
  rcases finished_or_failed h.ending hclosing with ⟨clean, elapsed, hstatus⟩ | ⟨fault, hstatus⟩
  · simp [report?, hstatus]
  · -- Nothing has failed.
    obtain ⟨last, hdated⟩ := h.dated
    have hnot := hdated.status
    rw [hstatus] at hnot
    cases hnot

/-- Whatever is to be delivered can be, and that winds the run up. -/
theorem winds_of_delivery? (hroom : 0 < e.room) (h : e.delivery? = some a) :
    e.Winds a ∧ (e.step? a).isSome := by
  unfold delivery? at h
  split at h
  · rename_i s rest hchannel
    cases h
    exact ⟨rfl, by simp [step?, receive?, hchannel]⟩
  · rename_i hchannel
    obtain ⟨m, hfind, rfl⟩ := Option.map_eq_some_iff.mp h
    obtain ⟨hlt, hsending, -⟩ := List.findIdx?_eq_some_iff_getElem.mp hfind
    refine ⟨rfl, ?_⟩
    have hfree : e.hasRoom = true := by
      rw [hasRoom, hchannel]
      exact decide_eq_true hroom
    cases hphase : e.monitors[m].phase with
    | sending tick s => simp [step?, send?, hfree, List.getElem?_eq_getElem hlt, hphase]
    | waiting | parked | stopped => simp [Monitor.isSending, hphase] at hsending

/-- An instance without a record can be brought to its end. -/
theorem winds_ending (hruns : e.isRunning = false) {i : Nat} {inst : Instance}
    (found : e.instances[i]? = some inst) (hgoes : inst.phase.isEnded = false)
    (hhanded : ∀ record, inst.phase ≠ .recording record) :
    e.Winds (ending i inst) ∧ (e.step? (ending i inst)).isSome := by
  -- A request that is due is issued first. Other instances quit.
  cases hphase : inst.phase with
  | fresh =>
    rw [ending, hphase]
    exact ⟨⟨inst, found, hphase⟩,
      issue?_isSome found (by simp [Instance.canIssue, hphase, Phase.wake?])⟩
  | resting wake =>
    rw [ending, hphase]
    exact ⟨rfl, by simp [step?, quit?, hruns, found, Instance.quit?, hphase]⟩
  | awaiting issued cost =>
    rw [ending, hphase]
    exact ⟨rfl, by simp [step?, quit?, hruns, found, Instance.quit?, hphase]⟩
  | recording record => exact absurd hphase (hhanded record)
  | stopped | crashed => rw [hphase] at hgoes; cases hgoes

/-- Everything else at the end of a run that has nothing to deliver can be done. -/
theorem winds_of_closing? (hroom : 0 < e.room) (hhanded : e.Handed) (hquiet : e.delivery? = none)
    (h : e.closing? = some a) : e.Winds a ∧ (e.step? a).isSome := by
  obtain ⟨hchannel, hsending⟩ := not_sending_of_delivery? hquiet
  have hfree : e.hasRoom = true := by
    rw [hasRoom, hchannel]
    exact decide_eq_true hroom
  cases hruns : e.isRunning with
  | true =>
    rw [Simulation.closing?_of_isRunning hruns] at h
    cases h
  | false =>
    rw [closing?, hruns] at h
    simp only [Bool.false_eq_true, if_false] at h
    cases hinstance : e.instances.findIdx? (!·.phase.isEnded) with
    | some i =>
      obtain ⟨hlt, hgoes, -⟩ := List.findIdx?_eq_some_iff_getElem.mp hinstance
      simp only [hinstance, List.getElem?_eq_getElem hlt, Option.map_some, Option.some.injEq] at h
      subst h
      exact winds_ending hruns (List.getElem?_eq_getElem hlt) (by simpa using hgoes)
        (hhanded _ (List.getElem_mem hlt))
    | none =>
      simp only [hinstance] at h
      cases hmonitor : e.monitors.findIdx? (!·.isStopped) with
      | some m =>
        obtain ⟨hlt, hgoes, -⟩ := List.findIdx?_eq_some_iff_getElem.mp hmonitor
        simp only [hmonitor, Option.some.injEq] at h
        subst h
        refine ⟨rfl, ?_⟩
        have hnot := hsending _ (List.getElem_mem hlt)
        -- A monitor that has not ended and has nothing to send awaits a tick or the end.
        cases hphase : e.monitors[m].phase with
        | waiting | parked =>
          simp [step?, leave?, hruns, List.getElem?_eq_getElem hlt, Monitor.quit?, hphase]
        | sending => simp [Monitor.isSending, hphase] at hnot
        | stopped => simp [Monitor.isStopped, hphase] at hgoes
      | none =>
        simp only [hmonitor] at h
        have hquietNow : e.isQuiet = true := by
          rw [List.findIdx?_eq_none_iff] at hinstance hmonitor
          rw [isQuiet, Bool.and_eq_true, List.all_eq_true, List.all_eq_true]
          exact ⟨fun inst hinst => by simpa using hinstance inst hinst,
            fun m hm => by simpa using hmonitor m hm⟩
        split at h
        · rename_i since hstatus
          cases h
          refine ⟨rfl, ?_⟩
          simp only [step?, flush?, hstatus, if_true, hquietNow]
          split <;> rfl
        · rename_i hstatus
          cases h
          exact ⟨rfl, by simp [step?, sendFlushed?, hstatus, hfree]⟩
        · rename_i hstatus
          cases h
          rw [isQuiet, Bool.and_eq_true] at hquietNow
          exact ⟨rfl, by simp only [step?, finish?, hstatus, hchannel, hquietNow.2]; rfl⟩
        · cases h

/-- As long as an ending run has no report, something winds it up. -/
theorem Ends.exists_winds (h : e.Ends) (hnone : e.report? = none) :
    ∃ a, e.Winds a ∧ (e.step? a).isSome := by
  by_cases hhanded : e.Handed
  · cases hdelivery : e.delivery? with
    | some a => exact ⟨a, winds_of_delivery? h.room hdelivery⟩
    | none =>
      cases hclosing : e.closing? with
      | some a => exact ⟨a, winds_of_closing? h.room hhanded hdelivery hclosing⟩
      | none =>
        -- Everybody is done, so there is a report after all.
        have hsome := h.report?_isSome hclosing
        rw [hnone] at hsome
        cases hsome
  · -- A record that is still to be handed over comes first.
    unfold Handed at hhanded
    push Not at hhanded
    obtain ⟨inst, hinst, record, holds⟩ := hhanded
    obtain ⟨i, found⟩ := List.mem_iff_getElem?.mp hinst
    exact ⟨.record i, rfl, record?_isSome found holds⟩

/-- **An ending run can always be brought to its report**, without replies and without time. -/
theorem Ends.finishes (h : e.Ends) :
    ∃ as events e', e.run? as = some (e', events) ∧ (∀ a ∈ as, a.isTurn) ∧ e'.report?.isSome := by
  -- What is left to do decreases with every action.
  induction hmeasure : e.toDo using Nat.strong_induction_on generalizing e with
  | _ n ih =>
    cases hreport : e.report? with
    | some report => exact ⟨[], [], e, rfl, fun _ ha => (by cases ha), by rw [hreport]; rfl⟩
    | none =>
      obtain ⟨a, hwinds, hsome⟩ := h.exists_winds hreport
      obtain ⟨⟨next, shown⟩, hstep⟩ := Option.isSome_iff_exists.mp hsome
      have hsteps := steps_of_step? hstep
      have hless : next.toDo < n := hmeasure ▸ hsteps.toDo_lt hwinds
      obtain ⟨as, events, e', hrun, hturns, hlast⟩ :=
        ih next.toDo hless (hsteps.ends hwinds.isTurn h) rfl
      have hall := run?_cons_iff.mpr ⟨next, shown, events, hstep, hrun, rfl⟩
      exact ⟨a :: as, shown ++ events, e', hall,
        List.forall_mem_cons.mpr ⟨hwinds.isTurn, hturns⟩, hlast⟩

end Engine

namespace Simulation

variable {b : Behaviour} {s s' : Simulation b}

/-- The passing of time changes nothing but the time. -/
theorem engine_advance (s : Simulation b) (t : Nat) :
    ∃ now, (s.act (.advance t)).engine = { s.engine with now } := by
  unfold act
  cases h : s.engine.step? (.advance t) with
  | none => exact ⟨s.engine.now, rfl⟩
  | some result =>
    obtain ⟨next, shown⟩ := result
    cases Engine.steps_of_step? h with
    | advance => exact ⟨t, rfl⟩

/-- Time does not change the status. -/
theorem status_advance (s : Simulation b) (t : Nat) :
    (s.act (.advance t)).engine.status = s.engine.status := by
  obtain ⟨now, hengine⟩ := s.engine_advance t
  rw [hengine]

/-- A run goes on while its owner lets time pass. -/
theorem isRunning_sleepUntil? {target : Nat} (h : s.sleepUntil? target = some s')
    (hrun : s.engine.isRunning = true) : s'.engine.isRunning = true :=
  (proceeds_runUntil h).keeps (fun hstep ha => hstep.isRunning_of_isOwn ha) hrun

/-- The order to end is obeyed. -/
theorem engine_stop (hrun : s.engine.isRunning = true) (traffic : Traffic) :
    ({ s with traffic }.act (.stop true)).engine =
      { s.engine with status := .draining true s.engine.now } := by
  have hstep : s.engine.step? (.stop true) =
      some ({ s.engine with status := .draining true s.engine.now }, []) := by
    show s.engine.stop? true = _
    rw [Engine.stop?, if_pos hrun]
  simp only [act, hstep]

/-- **A run that is told to end is finished in the end**, and its times stay within their bound. -/
theorem stop?_finished {last : Nat} (h : s.stop? = some s') (hrun : s.engine.isRunning = true)
    (hdated : s.engine.Dated last) :
    s'.engine.Dated last ∧ ∃ clean elapsed, s'.engine.status = .finished clean elapsed := by
  have hstatus : s.engine.status = .running := Engine.status_of_isRunning hrun
  have hengine := engine_stop hrun (Traffic.idle b.capacity)
  have hdated' : s'.engine.Dated last := by
    refine Engine.Proceeds.dated (proceeds_runUntil h) hdated.now_le ?_
    rw [hengine]
    exact Engine.Steps.dated (.stop hstatus) hdated.now_le hdated
  obtain ⟨quiet, hproceeds, hquiet, rfl⟩ := runUntil_quiet h
  have hending : quiet.engine.IsEnding := by
    refine hproceeds.keeps (fun hstep _ => hstep.isEnding) ?_
    rw [hengine]
    exact rfl
  -- Whoever is quiet has nothing to close.
  have hclosing : quiet.engine.closing? = none := by
    unfold next? at hquiet
    split at hquiet
    · cases hquiet
    next hnone => exact (Option.or_eq_none_iff.mp hnone).2
  refine ⟨hdated', ?_⟩
  rcases Engine.finished_or_failed hending hclosing with hfinished | ⟨fault, hfailed⟩
  · rw [status_advance]
    exact hfinished
  · -- Nothing fails in a dated run.
    have hstatus := hdated'.status
    rw [status_advance, hfailed] at hstatus
    cases hstatus

/-- **A simulation that was told to end comes to its report** with as much fuel as there is left to
do. -/
theorem report_of_ends (target : Nat) {fuel : Nat} (hhanded : s.engine.Handed)
    (hends : s.engine.Ends) (hfuel : s.engine.toDo < fuel) :
    ∃ s', runUntil target fuel s = some s' ∧ s'.engine.report?.isSome := by
  induction fuel generalizing s with
  | zero => omega
  | succ fuel ih =>
    rw [runUntil]
    cases hnext : s.next? with
    | some happening =>
      -- An action of the engine that winds the run up leaves less to do.
      have hact : ∀ a, s.engine.Winds a ∧ (s.engine.step? a).isSome →
          ∃ s', runUntil target fuel (s.act a) = some s' ∧ s'.engine.report?.isSome := by
        rintro a ⟨hwinds, hsome⟩
        obtain ⟨⟨next, shown⟩, hstep⟩ := Option.isSome_iff_exists.mp hsome
        have hengine : (s.act a).engine = next := by simp only [act, hstep]
        have hsteps := Engine.steps_of_step? hstep
        refine ih (handed_act hhanded fun i reply ha => ?_) (hengine ▸ ?_) (hengine ▸ ?_)
        · rw [ha] at hwinds
          cases hwinds
        · exact hsteps.ends hwinds.isTurn hends
        · have hless := hsteps.toDo_lt hwinds
          omega
      cases next?_eq_some_iff.mp hnext with
      | delivers delivery => exact hact _ (Engine.winds_of_delivery? hends.room delivery)
      | closes quiet closing =>
        exact hact _ (Engine.winds_of_closing? hends.room hhanded quiet closing)
      | moves _ runs | calls _ runs | cuts _ runs =>
        rw [hends.ending.not_isRunning] at runs
        cases runs
    | none =>
      obtain ⟨-, hclosing, -⟩ := next?_eq_none_iff.mp hnext
      have hwake : s.nextWake? = none := by
        rw [nextWake?, hends.ending.not_isRunning]
        rfl
      have hreport := hends.report?_isSome hclosing
      refine ⟨s.act (.advance target), by simp only [hwake], ?_⟩
      have hstatus := status_advance s target
      unfold Engine.report? at hreport ⊢
      rw [hstatus]
      split at hreport
      · rfl
      · cases hreport

end Simulation

end ClosedLoop
