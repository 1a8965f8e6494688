import ClosedLoop.Proofs.Engine.Simulated
import ClosedLoop.Proofs.Engine.Turns
import ClosedLoop.Proofs.Service.Timers

namespace ClosedLoop

/-!
# Runs on time

The engine leaves open how much time passes between two actions. On the clock of a run, time passes
only when nothing else is left to do, and never beyond a timer.

* `Engine.Waits` — nothing is left to do that the engine does by itself;
* `Engine.MayPass`, `Engine.OnTime` — when time may pass, and runs in which it passes only then;
* `Engine.run?_induction_onTime` — invariants of such runs may count on it;
* `Simulation.Driven`, `Simulation.Driven.punctually` — whatever the owner of a simulation does, the
  run of its engine is on time.
-/

/-- What has ended waits for no timer. -/
theorem Phase.wake?_of_isEnded {phase : Phase} (h : phase.isEnded = true) : phase.wake? = none := by
  cases phase with
  | stopped | crashed => rfl
  | _ => cases h

/-- A monitor that has stopped is in its last phase. -/
theorem Monitor.phase_of_isStopped {m : Monitor} (h : m.isStopped = true) : m.phase = .stopped := by
  unfold isStopped at h
  split at h
  · assumption
  · cases h

namespace Engine

/-- Nothing is left to do at this instant. -/
def Waits (e : Engine) : Prop := ∀ a : Action, a.isTurn → e.step? a = none

/-- Time may pass up to an instant: nothing is left to do before it, and no timer fires earlier. -/
structure MayPass (e : Engine) (target : Nat) : Prop where
  waits : e.Waits
  instances : ∀ inst ∈ e.instances, ∀ wake, inst.phase.wake? = some wake → target ≤ wake
  monitors : ∀ monitor ∈ e.monitors, ∀ wake, monitor.wake? = some wake → target ≤ wake

/-- Time passes with this action only if it may. -/
def Timely (e : Engine) (a : Action) : Prop := ∀ target, a = .advance target → e.MayPass target

/-- Time passes only when it may, in a run with these actions. -/
def OnTime (e : Engine) : List Action → Prop
  | [] => True
  | a :: rest => e.Timely a ∧ ∀ next shown, e.step? a = some (next, shown) → next.OnTime rest

/-- The second engine comes out of a run of the first one that is on time. -/
def Punctually (e e' : Engine) : Prop :=
  ∃ as events, e.run? as = some (e', events) ∧ e.OnTime as

variable {e mid e' : Engine} {as bs : List Action} {a : Action} {shown : List Event}

/-! ### Waiting -/

/-- An engine that waits has nothing in its channel. -/
theorem Waits.channel (h : e.Waits) : e.channel = [] := by
  have hnone : e.receive? = none := h .receive rfl
  cases hchannel : e.channel with
  | nil => rfl
  | cons s rest =>
    rw [receive?, hchannel] at hnone
    cases hnone

/-- No monitor has a snapshot to send, for the channel has room. -/
theorem Waits.not_sending (h : e.Waits) (hroom : 0 < e.room) {monitor : Monitor}
    (hm : monitor ∈ e.monitors) (tick : Nat) (s : Snapshot) : monitor.phase ≠ .sending tick s := by
  intro hphase
  obtain ⟨m, found⟩ := List.mem_iff_getElem?.mp hm
  have hnone : e.send? m = none := h (.send m) rfl
  have hfree : e.hasRoom = true := by
    rw [hasRoom, h.channel]
    exact decide_eq_true hroom
  simp [send?, hfree, found, hphase] at hnone

/-- No tick has fired. -/
theorem Waits.not_due (h : e.Waits) {monitor : Monitor} (hm : monitor ∈ e.monitors) :
    monitor.isDue e.now = false := by
  obtain ⟨m, found⟩ := List.mem_iff_getElem?.mp hm
  have hnone : e.cut? m = none := h (.cut m) rfl
  cases hdue : monitor.isDue e.now with
  | false => rfl
  | true =>
    -- Only a monitor that awaits a tick can be due.
    cases hphase : monitor.phase with
    | waiting tick => simp [cut?, found, hdue, hphase] at hnone
    | sending | parked | stopped => simp [Monitor.isDue, Monitor.wake?, hphase] at hdue

/-- When all instances await replies and no monitor has anything to do, time may pass as far as one
    likes. -/
theorem mayPass_of_awaiting (hruns : e.isRunning = true) (hchannel : e.channel = [])
    (hawait : ∀ inst ∈ e.instances, inst.phase.isAwaiting = true)
    (hidle : ∀ monitor ∈ e.monitors, monitor.wake? = none ∧ monitor.isSending = false)
    (target : Nat) : e.MayPass target := by
  -- Every instance awaits a reply.
  have hphase : ∀ {i : Nat} {inst : Instance}, e.instances[i]? = some inst →
      ∃ issued cost, inst.phase = .awaiting issued cost := by
    intro i inst found
    have hawaiting := hawait inst (List.mem_of_getElem? found)
    cases hphase : inst.phase with
    | awaiting issued cost => exact ⟨issued, cost, rfl⟩
    | _ => rw [hphase] at hawaiting; cases hawaiting
  refine ⟨fun a ha => ?_, fun inst hinst wake hwake => ?_, fun monitor hm wake hwake => ?_⟩
  · -- Each turn would need an instance that rests or holds a record, a tick, or something to send.
    refine Option.not_isSome_iff_eq_none.mp fun hsome => ?_
    obtain ⟨⟨next, shown⟩, hstep⟩ := Option.isSome_iff_exists.mp hsome
    cases steps_of_step? hstep with
    | issue found turn =>
      obtain ⟨issued, cost, awaits⟩ := hphase found
      simp [Instance.issue?, Instance.canIssue, Phase.wake?, awaits] at turn
    | record found turn | crash found turn =>
      obtain ⟨holds, -⟩ := Instance.handOver?_eq_some turn
      obtain ⟨issued, cost, awaits⟩ := hphase found
      rw [holds] at awaits
      cases awaits
    | quit told | leave told => rw [hruns] at told; cases told
    | cutNothing found due | cut found due | cutFails found due =>
      obtain ⟨hnone, -⟩ := hidle _ (List.mem_of_getElem? found)
      simp [Monitor.isDue, hnone] at due
    | send room found holds =>
      obtain ⟨-, hnot⟩ := hidle _ (List.mem_of_getElem? found)
      rw [Monitor.isSending, holds] at hnot
      cases hnot
    | receive front => rw [hchannel] at front; cases front
    | flush status | flushFails status | sendFlushed status | finish status =>
      rw [isRunning, status] at hruns
      cases hruns
    | reply | advance | stop => cases ha
  · obtain ⟨i, found⟩ := List.mem_iff_getElem?.mp hinst
    obtain ⟨issued, cost, awaits⟩ := hphase found
    rw [awaits] at hwake
    cases hwake
  · rw [(hidle monitor hm).1] at hwake
    cases hwake

/-! ### Runs on time -/

/-- Only the passing of time may come too late. -/
theorem timely_of_ne (h : ∀ target, a ≠ .advance target) : e.Timely a :=
  fun target ha => absurd ha (h target)

/-- What takes no time comes in time. -/
theorem timely_of_isPrompt (h : a.isPrompt) : e.Timely a := by
  refine timely_of_ne fun target ha => ?_
  rw [ha] at h
  cases h

/-- A run in which no time passes is on time. -/
theorem onTime_of_isPrompt (h : ∀ a ∈ as, a.isPrompt) : e.OnTime as := by
  induction as generalizing e with
  | nil => trivial
  | cons a rest ih =>
    obtain ⟨ha, hrest⟩ := List.forall_mem_cons.mp h
    exact ⟨timely_of_isPrompt ha, fun _ _ _ => ih hrest⟩

/-- Runs on time are those in which every action is timely. -/
theorem onTime_iff : e.OnTime as ↔ e.Throughout Timely as := by
  induction as generalizing e with
  | nil => exact Iff.rfl
  | cons a rest ih => simp only [OnTime, Throughout, ih]

/-- A run is on time if both its parts are. -/
theorem onTime_append (hrun : e.run? as = some (mid, shown)) :
    e.OnTime (as ++ bs) ↔ e.OnTime as ∧ mid.OnTime bs := by
  simp only [onTime_iff, throughout_append hrun]

/-- What holds at first, and is preserved by every step that can follow a run, holds after every run
    on time; time passes only when it may. -/
theorem run?_induction_onTime {motive : Engine → List Event → Prop}
    (h : e.run? as = some (e', shown)) (ontime : e.OnTime as) (start : motive e [])
    (step : ∀ {before : List Action} {mid next : Engine} {a : Action} {told new : List Event},
      e.run? before = some (mid, told) → motive mid told → Steps mid a next new → mid.Timely a →
        motive next (told ++ new)) :
    motive e' shown :=
  run?_induction_throughout h (onTime_iff.mp ontime) start
    fun hbefore _ hmid hstep htimely => step hbefore hmid hstep htimely

namespace Punctually

/-- To stay is to be on time. -/
theorem refl (e : Engine) : e.Punctually e := ⟨[], [], rfl, trivial⟩

/-- Two runs on time one after the other are one. -/
theorem trans (h : e.Punctually mid) (hlater : mid.Punctually e') : e.Punctually e' := by
  obtain ⟨as, events, hrun, hontime⟩ := h
  obtain ⟨bs, later, hrest, hlast⟩ := hlater
  exact ⟨as ++ bs, events ++ later, run?_append hrun hrest, (onTime_append hrun).mpr
    ⟨hontime, hlast⟩⟩

/-- A step in time is a run on time. -/
theorem of_step? (h : e.step? a = some (e', shown)) (ha : e.Timely a) : e.Punctually e' :=
  ⟨[a], shown, run?_one h, ha, fun _ _ _ => trivial⟩

/-- What takes no time is a run on time. -/
theorem of_prompt (h : Follows (·.isPrompt) e e') : e.Punctually e' := by
  obtain ⟨as, events, hrun, has⟩ := h
  exact ⟨as, events, hrun, onTime_of_isPrompt has⟩

end Punctually

/-! ### No record is kept back -/

/-- No instance has a record that is still to be handed over. -/
def Handed (e : Engine) : Prop :=
  ∀ inst ∈ e.instances, ∀ record, inst.phase ≠ .recording record

/-- An instance that is replaced by one without a record leaves nothing to be handed over. -/
theorem Handed.setInstance (h : e.Handed) {i : Nat} {next : Instance}
    (hnext : ∀ record, next.phase ≠ .recording record) : (e.setInstance i next).Handed := by
  intro inst hinst
  rcases List.mem_or_eq_of_mem_set hinst with hold | rfl
  · exact h inst hold
  · exact hnext

/-- Only a reply gives an instance something to hand over. -/
theorem Steps.handed (h : Steps e a e' shown) (hne : ∀ i reply, a ≠ .reply i reply)
    (hhanded : e.Handed) : e'.Handed := by
  -- Each turn of an instance leads to a phase without a record, but for a reply.
  cases h with
  | issue found turn =>
    refine hhanded.setInstance fun record holds => ?_
    cases Instance.moves_of_issue? (i := 0) turn with
    | issues => cases holds
  | @reply i answer => exact absurd rfl (hne i answer)
  | @record i inst next record taken found turn kept =>
    refine Handed.setInstance (e := { e with ledger := _ }) hhanded fun other holds => ?_
    obtain ⟨-, rfl⟩ := Instance.handOver?_eq_some turn
    cases holds
  | crash found turn kept =>
    refine Handed.setInstance (e := { e with ledger := _ }) hhanded fun other holds => ?_
    cases holds
  | quit told found turn =>
    refine hhanded.setInstance fun record holds => ?_
    obtain ⟨-, rfl⟩ := Instance.quit?_eq_some turn
    cases holds
  | _ => exact hhanded

/-- An instance that has a record can hand it over. -/
theorem record?_isSome {i : Nat} {inst : Instance} {record : Record}
    (found : e.instances[i]? = some inst) (holds : inst.phase = .recording record) :
    (e.step? (.record i)).isSome := by
  simp [step?, record?, found, Instance.handOver?, holds]

/-- An instance whose timer has fired can issue a request. -/
theorem issue?_isSome {i : Nat} {inst : Instance} (found : e.instances[i]? = some inst)
    (hcan : inst.canIssue e.now = true) : (e.step? (.issue i)).isSome := by
  rcases hdrawn : inst.profile.drawCost inst.words with ⟨cost, words⟩
  simp [step?, issue?, found, Instance.issue?, hcan, hdrawn]

/-- A reply and its record together leave nothing to hand over. -/
theorem Steps.handed_record {i : Nat} {answer : Reply} {next : Engine} {later : List Event}
    (h : Steps e (.reply i answer) mid shown) (hlater : Steps mid (.record i) next later)
    (hhanded : e.Handed) : next.Handed := by
  cases h with
  | @reply _ _ inst held found turn =>
    -- The instance that got the reply is replaced once more.
    have hset : ∀ after : Instance, (∀ record, after.phase ≠ .recording record) →
        ∀ inst ∈ (e.instances.set i held).set i after, ∀ record,
          inst.phase ≠ .recording record := by
      intro after hafter
      rw [List.set_set]
      exact hhanded.setInstance hafter
    cases hlater with
    | record found' turn' kept =>
      obtain ⟨-, rfl⟩ := Instance.handOver?_eq_some turn'
      exact hset _ fun record holds => by cases holds
    | crash found' turn' kept => exact hset _ fun record holds => by cases holds

/-! ### What is left to do -/

/-- Without anything to deliver the channel is empty and no monitor has anything to send. -/
theorem not_sending_of_delivery? (h : e.delivery? = none) :
    e.channel = [] ∧ ∀ m ∈ e.monitors, m.isSending = false := by
  unfold delivery? at h
  split at h
  · cases h
  · rename_i hchannel
    rw [Option.map_eq_none_iff, List.findIdx?_eq_none_iff] at h
    exact ⟨hchannel, h⟩

/-- In a run that was told to end and has nothing left to do, everything has ended. -/
theorem ended_of_closing? (hruns : e.isRunning = false) (h : e.closing? = none) :
    (∀ inst ∈ e.instances, inst.phase.isEnded = true) ∧
      (∀ m ∈ e.monitors, m.isStopped = true) ∧
        (∀ since, e.status ≠ .draining true since) ∧
          ∀ clean elapsed left, e.status ≠ .flushing clean elapsed left := by
  rw [closing?, hruns] at h
  simp only [Bool.false_eq_true, if_false] at h
  -- The first that has not ended would have something to do: an instance, a monitor, then the
  -- ledger.
  cases hinstance : e.instances.findIdx? (!·.phase.isEnded) with
  | some i =>
    obtain ⟨hlt, -⟩ := List.findIdx?_eq_some_iff_getElem.mp hinstance
    simp [hinstance, List.getElem?_eq_getElem hlt] at h
  | none =>
    simp only [hinstance] at h
    cases hmonitor : e.monitors.findIdx? (!·.isStopped) with
    | some m => simp [hmonitor] at h
    | none =>
      simp only [hmonitor] at h
      rw [List.findIdx?_eq_none_iff] at hinstance hmonitor
      refine ⟨fun inst hinst => by simpa using hinstance inst hinst,
        fun m hm => by simpa using hmonitor m hm, fun since hstatus => ?_,
        fun clean elapsed left hstatus => ?_⟩
      · simp [hstatus] at h
      · cases left <;> simp [hstatus] at h

end Engine

/-! ### The earliest timer -/

/-- A monitor is due if its timer has fired. -/
theorem Monitor.isDue_iff (m : Monitor) {now : Nat} :
    m.isDue now ↔ ∃ wake, m.wake? = some wake ∧ wake ≤ now := by
  unfold isDue
  cases m.wake? <;> simp

namespace Simulation

variable {b : Behaviour} {s s' : Simulation b} {target : Nat}

/-- An instant is not later than the next timer of a run if it is not later than any. -/
theorem le_nextWake?_iff (target : Nat) (hruns : s.engine.isRunning = true) :
    (∀ wake, s.nextWake? = some wake → target ≤ wake) ↔
      (∀ c ∈ s.traffic.calls, ∀ wake, c.wake? = some wake → target ≤ wake) ∧
        (∀ inst ∈ s.engine.instances, ∀ wake, inst.phase.wake? = some wake → target ≤ wake) ∧
          ∀ m ∈ s.engine.monitors, ∀ wake, m.wake? = some wake → target ≤ wake := by
  rw [nextWake?, if_pos hruns, Traffic.le_earlier?_iff, Traffic.nextWake?,
    Traffic.le_foldl_earlier?_iff, Engine.nextWake?, Traffic.le_foldl_earlier?_iff,
    Traffic.le_foldl_earlier?_iff]
  simp

/-- Nothing is due at an instant if the next timer fires later. -/
theorem idle_iff {t : Nat} (hruns : s.engine.isRunning = true) :
    (s.traffic.due? t = none ∧ s.engine.instances.findIdx? (·.canIssue t) = none ∧
      s.engine.monitors.findIdx? (·.isDue t) = none) ↔
        ∀ wake, s.nextWake? = some wake → t < wake := by
  -- What is due is asked in the same way of calls, instances and monitors.
  have hlater : ∀ {timer : Option Nat} {due : Bool},
      (due = true ↔ ∃ wake, timer = some wake ∧ wake ≤ t) →
        (due = false ↔ ∀ wake, timer = some wake → t + 1 ≤ wake) := by
    intro timer due hdue
    rw [← Bool.not_eq_true, hdue, not_exists]
    exact forall_congr' fun wake =>
      ⟨fun hnot hwake => Nat.lt_of_not_le fun hle => hnot ⟨hwake, hle⟩,
        fun hlater h => Nat.not_le_of_lt (hlater h.1) h.2⟩
  rw [Traffic.due?, List.find?_eq_none, List.findIdx?_eq_none_iff, List.findIdx?_eq_none_iff]
  refine Iff.trans ?_ (le_nextWake?_iff (t + 1) hruns).symm
  refine and_congr (forall₂_congr fun c _ => ?_) (and_congr (forall₂_congr fun inst _ => ?_)
    (forall₂_congr fun m _ => ?_))
  · rw [Bool.not_eq_true]
    exact hlater c.isDue_iff
  · exact hlater Instance.canIssue_iff
  · exact hlater m.isDue_iff

/-! ### When time may pass -/

/-- A run that goes on and has nothing left to do at an instant waits. -/
theorem waits_of_isRunning (hhanded : s.engine.Handed) (hruns : s.engine.isRunning = true)
    (hnext : s.next? = none) : s.engine.Waits := by
  obtain ⟨hdelivery, -, hrunning⟩ := next?_eq_none_iff.mp hnext
  obtain ⟨-, hissuer, hmonitor⟩ := hrunning hruns
  obtain ⟨hchannel, hsending⟩ := Engine.not_sending_of_delivery? hdelivery
  have hissue : ∀ inst ∈ s.engine.instances, inst.canIssue s.engine.now = false :=
    List.findIdx?_eq_none_iff.mp hissuer
  have hdue : ∀ m ∈ s.engine.monitors, m.isDue s.engine.now = false :=
    List.findIdx?_eq_none_iff.mp hmonitor
  intro a ha
  -- Each turn would need something that has just been ruled out.
  refine Option.not_isSome_iff_eq_none.mp fun hsome => ?_
  obtain ⟨⟨next, shown⟩, hstep⟩ := Option.isSome_iff_exists.mp hsome
  cases Engine.steps_of_step? hstep with
  | issue found turn =>
    have hcan := hissue _ (List.mem_of_getElem? found)
    simp [Instance.issue?, hcan] at turn
  | record found turn | crash found turn =>
    obtain ⟨holds, -⟩ := Instance.handOver?_eq_some turn
    exact hhanded _ (List.mem_of_getElem? found) _ holds
  | quit told | leave told => rw [hruns] at told; cases told
  | cutNothing found due | cut found due | cutFails found due =>
    rw [hdue _ (List.mem_of_getElem? found)] at due
    cases due
  | send room found holds =>
    have hnot := hsending _ (List.mem_of_getElem? found)
    rw [Monitor.isSending, holds] at hnot
    cases hnot
  | receive front => rw [hchannel] at front; cases front
  | flush status | flushFails status | sendFlushed status | finish status =>
    rw [Engine.isRunning, status] at hruns
    cases hruns
  | reply | advance | stop => cases ha

/-- A run that was told to end and has nothing left to do at an instant waits. -/
theorem waits_of_not_isRunning (hruns : s.engine.isRunning = false) (hnext : s.next? = none) :
    s.engine.Waits := by
  obtain ⟨hdelivery, hclosing, -⟩ := next?_eq_none_iff.mp hnext
  obtain ⟨hchannel, -⟩ := Engine.not_sending_of_delivery? hdelivery
  obtain ⟨hended, hstopped, hdraining, hflushing⟩ := Engine.ended_of_closing? hruns hclosing
  have hphase : ∀ {m : Nat} {monitor : Monitor}, s.engine.monitors[m]? = some monitor →
      monitor.phase = .stopped :=
    fun found => Monitor.phase_of_isStopped (hstopped _ (List.mem_of_getElem? found))
  intro a ha
  refine Option.not_isSome_iff_eq_none.mp fun hsome => ?_
  obtain ⟨⟨next, shown⟩, hstep⟩ := Option.isSome_iff_exists.mp hsome
  -- Whatever has ended takes no turn, and what is to be delivered or flushed is not there.
  cases Engine.steps_of_step? hstep with
  | issue found turn =>
    have hmove := Instance.moves_of_issue? (i := 0) turn
    cases (hmove.eq_of_isEnded (hended _ (List.mem_of_getElem? found))).2
  | record found turn | crash found turn =>
    obtain ⟨holds, -⟩ := Instance.handOver?_eq_some turn
    have hgone := hended _ (List.mem_of_getElem? found)
    rw [holds] at hgone
    cases hgone
  | quit told found turn =>
    have hmove : Instance.Moves 0 0 _ _ _ := Instance.moves_of_quit? turn
    cases (hmove.eq_of_isEnded (hended _ (List.mem_of_getElem? found))).2
  | cutNothing found due waits | cut found due waits | cutFails found due waits =>
    rw [hphase found] at waits
    cases waits
  | send room found holds => rw [hphase found] at holds; cases holds
  | leave told found turn => rw [Monitor.quit?, hphase found] at turn; cases turn
  | receive front => rw [hchannel] at front; cases front
  | flush status | flushFails status => exact hdraining _ status
  | sendFlushed status | finish status => exact hflushing _ _ _ status
  | reply | advance | stop => cases ha

/-- When nothing is left to do, time may pass up to the next timer. -/
theorem mayPass_of_next? (hhanded : s.engine.Handed) (hnext : s.next? = none)
    (hwake : ∀ wake, s.nextWake? = some wake → target ≤ wake) : s.engine.MayPass target := by
  cases hruns : s.engine.isRunning with
  | true =>
    obtain ⟨-, hinstances, hmonitors⟩ := (le_nextWake?_iff _ hruns).mp hwake
    exact ⟨waits_of_isRunning hhanded hruns hnext, hinstances, hmonitors⟩
  | false =>
    -- Everything has ended, and nothing that has ended has a timer.
    have hwaits := waits_of_not_isRunning hruns hnext
    obtain ⟨-, hclosing, -⟩ := next?_eq_none_iff.mp hnext
    obtain ⟨hended, hstopped, -⟩ := Engine.ended_of_closing? hruns hclosing
    refine ⟨hwaits, fun inst hinst wake hw => ?_, fun m hm wake hw => ?_⟩
    · rw [Phase.wake?_of_isEnded (hended inst hinst)] at hw
      cases hw
    · rw [Monitor.wake?, Monitor.phase_of_isStopped (hstopped m hm)] at hw
      cases hw

/-! ### Simulations are on time -/

/-- Nothing but a reply leaves anything to hand over. -/
theorem handed_act (h : s.engine.Handed) {a : Action} (hne : ∀ i reply, a ≠ .reply i reply) :
    (s.act a).engine.Handed := by
  unfold act
  cases hstep : s.engine.step? a with
  | none => exact h
  | some result => exact (Engine.steps_of_step? hstep).handed hne h

/-- Handing replies to their instances leaves nothing to be handed over. -/
theorem handed_deliver (h : s.engine.Handed) (passages : List Passage) :
    (s.deliver passages).engine.Handed := by
  induction passages generalizing s with
  | nil => exact h
  | cons passage rest ih =>
    cases passage with
    | returns i reply =>
      refine ih ?_
      -- If the reply is taken, its record is handed over at once.
      generalize hfinished : (s.callOf? i).toList ++ s.finished = finished
      cases hreply : s.engine.step? (.reply i reply) with
      | none =>
        have hsame : ({ s with finished }.act (.reply i reply)).engine = s.engine := by
          simp only [act, hreply]
        refine handed_act ?_ fun _ _ hne => by cases hne
        rw [hsame]
        exact h
      | some result =>
        obtain ⟨mid, shown⟩ := result
        have hmid : ({ s with finished }.act (.reply i reply)).engine = mid := by
          simp only [act, hreply]
        have hfirst := Engine.steps_of_step? hreply
        unfold act at hmid ⊢
        cases hrecord : mid.step? (.record i) with
        | none =>
          cases hfirst with
          | @reply _ _ inst next found turn =>
            cases Instance.moves_of_receive? (i := 0) turn with
            | @returns issued cost _ awaits =>
              have hlt : i < s.engine.instances.length :=
                (List.getElem?_eq_some_iff.mp found).1
              have hsome := Engine.record?_isSome
                (e := s.engine.setInstance i
                  { inst with phase := .recording (inst.recordOf issued s.engine.now cost reply) })
                (List.getElem?_set_self hlt) rfl
              rw [hrecord] at hsome
              cases hsome
        | some last =>
          simp only [hreply, hrecord]
          exact hfirst.handed_record (Engine.steps_of_step? hrecord) h
    | _ => exact ih h

/-- A request that is issued leaves nothing to be handed over. -/
theorem handed_call (h : s.engine.Handed) (i : Nat) : (s.call i).engine.Handed := by
  unfold call
  split
  · rename_i engine i' t cost hissue
    have hstep : s.engine.step? (.issue i) = some (engine, [.issued i' t cost]) := hissue
    have hengine : engine.Handed :=
      (Engine.steps_of_step? hstep).handed (fun _ _ hne => by cases hne) h
    split
    · rename_i inst _
      rcases b.answer inst.client cost s.endpoint with ⟨itinerary, endpoint⟩
      exact handed_deliver hengine _
    · exact h
  · exact h

/-- What happens in a simulation leaves no record to be handed over. -/
theorem handed_perform (h : s.engine.Handed) {happening : Happening}
    (hnext : s.next? = some happening) : (s.perform happening).engine.Handed := by
  cases happening with
  | call i => exact handed_call h i
  | move c =>
    have hmoved : ({ s with traffic := (s.traffic.expire s.engine.now c).1 }).engine.Handed := h
    exact handed_deliver hmoved (s.traffic.expire s.engine.now c).2
  | action a =>
    -- Replies are not up to the engine.
    have hturn := (next?_eq_some_iff.mp hnext).isTurn
    refine handed_act h fun i reply ha => ?_
    rw [ha] at hturn
    cases hturn

/-- Letting time pass is on time where it may pass. -/
theorem punctually_advance (h : s.engine.MayPass target) :
    s.engine.Punctually (s.act (.advance target)).engine := by
  unfold act
  cases hstep : s.engine.step? (.advance target) with
  | none => exact .refl _
  | some result =>
    refine .of_step? hstep fun t ht => ?_
    cases ht
    exact h

/-- **Everything that happens up to an instant is on time.** -/
theorem Goes.punctually (h : Goes target s s') (hhanded : s.engine.Handed) :
    s'.engine.Handed ∧ s.engine.Punctually s'.engine := by
  have hadvance : ∀ t i reply, Action.advance t ≠ .reply i reply := fun t i reply hne => by
    cases hne
  induction h with
  | happens next rest ih =>
    obtain ⟨hlast, hrest⟩ := ih (handed_perform hhanded next)
    exact ⟨hlast, (Engine.Punctually.of_prompt (prompt_perform _ next)).trans hrest⟩
  | @passes s s' t quiet wake within rest ih =>
    -- Time passes to the next timer, and the run goes on from there.
    have hpass : s.engine.MayPass t := mayPass_of_next? hhanded quiet fun w hw => by
      rw [wake] at hw
      exact Nat.le_of_eq (Option.some.inj hw)
    obtain ⟨hlast, hrest⟩ := ih (handed_act hhanded (hadvance t))
    exact ⟨hlast, (punctually_advance hpass).trans hrest⟩
  | @arrives s quiet beyond =>
    have hpass : s.engine.MayPass target := mayPass_of_next? hhanded quiet fun w hw =>
      Nat.le_of_lt (beyond w hw)
    exact ⟨handed_act hhanded (hadvance target), punctually_advance hpass⟩

/-- Before the next timer fires nothing can happen that could not happen earlier. -/
theorem next?_advance (hquiet : s.next? = none)
    (beyond : ∀ t, s.nextWake? = some t → target < t) : (s.act (.advance target)).next? = none := by
  unfold act
  cases hstep : s.engine.step? (.advance target) with
  | none => exact hquiet
  | some result =>
    obtain ⟨after, shown⟩ := result
    obtain ⟨hdelivery, hclosing, -⟩ := next?_eq_none_iff.mp hquiet
    cases Engine.steps_of_step? hstep with
    | advance later range =>
      refine next?_eq_none_iff.mpr ⟨hdelivery, hclosing, fun hruns => ?_⟩
      exact (idle_iff (t := target) (s := s) hruns).mpr beyond

/-- A simulation comes to rest at the end of what it goes through. -/
theorem Goes.next?_eq_none (h : Goes target s s') : s'.next? = none := by
  induction h with
  | happens next rest ih => exact ih
  | passes quiet wake within rest ih => exact ih
  | arrives quiet beyond => exact next?_advance quiet beyond

/-- The run told to end, its calls abandoned. -/
def told (s : Simulation b) (flushes : Bool) : Simulation b :=
  { s with traffic := Traffic.idle b.capacity }.act (.stop flushes)

/-- Ending a run is telling it to end and going on up to the present instant. -/
theorem endRun?_eq (s : Simulation b) (flushes : Bool) :
    s.endRun? flushes = runUntil s.engine.now patience (s.told flushes) := rfl

/-- What the owner of a run can come to: he lets time pass, as long as he likes, and tells the run
    to end. -/
inductive Driven (b : Behaviour) (config : EngineConfig) (profiles : List Profile) :
    Simulation b → Prop where
  | start : Driven b config profiles (start b config profiles)
  | sleeps {s s' : Simulation b} {target fuel : Nat} (earlier : Driven b config profiles s)
      (slept : runUntil target fuel s = some s') : Driven b config profiles s'
  | tells {s : Simulation b} (earlier : Driven b config profiles s) (flushes : Bool) :
      Driven b config profiles (s.told flushes)

/-- **The run of a simulation is on time**, whatever its owner does, and leaves no record to be
    handed over. -/
theorem Driven.punctually {config : EngineConfig} {profiles : List Profile}
    (h : Driven b config profiles s) :
    s.engine.Handed ∧ (Engine.start config profiles).Punctually s.engine := by
  induction h with
  | start =>
    refine ⟨fun inst hinst record holds => ?_, .refl _⟩
    rw [Engine.phase_of_instancesFrom hinst] at holds
    cases holds
  | sleeps earlier slept ih =>
    obtain ⟨hlast, hrest⟩ := (goes_of_runUntil slept).punctually ih.1
    exact ⟨hlast, ih.2.trans hrest⟩
  | @tells s earlier flushes ih =>
    -- Calls that are abandoned leave the engine as it is.
    have habandoned : ({ s with traffic := Traffic.idle b.capacity }).engine.Handed := ih.1
    have hne : ∀ i reply, Action.stop flushes ≠ .reply i reply := fun i reply h => by cases h
    refine ⟨handed_act habandoned hne, ih.2.trans ?_⟩
    unfold told act
    cases hstep : s.engine.step? (.stop flushes) with
    | none => exact .refl _
    | some result =>
      exact .of_step? hstep (Engine.timely_of_ne fun _ hne => by cases hne)

end Simulation

end ClosedLoop
