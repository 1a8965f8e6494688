import ClosedLoop.Proofs.Engine.Simulated
import ClosedLoop.Proofs.Service.Moves

namespace ClosedLoop

/-!
# Endpoints that answer all calls alike

Where all calls take the same time and return the same, a call in service is its instance and a
timer. It sets out when its instance issues a request, and when the timer fires its instance gets
the reply and hands over the record.

* `Behaviour.Uniform` — one delay and one reply for all calls;
* `Call.plain`, `Traffic.Plain` — calls that only wait for their timer;
* `Engine.after` — the engine after an action that may not be possible;
* `Simulation.call_of_issue`, `Simulation.expired` — what happens to such calls;
* `Simulation.plain_perform` — whatever happens, all calls stay so.
-/

/-- All calls take the same time and return the same. -/
def Behaviour.Uniform (b : Behaviour) (delay : Span) (reply : Reply) : Prop :=
  ∀ (client : ClientId) (cost : Cost) (s : b.State),
    (b.answer client cost s).1 = ⟨[⟨none, [delay]⟩], some reply⟩

/-! ### Calls -/

/-- A call that returns when its timer fires. -/
def Call.plain (id wake : Nat) (reply : Reply) : Call := ⟨id, .timed none wake [], [], some reply⟩

namespace Traffic

variable {t : Traffic} {reply : Reply} {now : Nat}

/-- All calls wait for their timer only, to return the reply. -/
def Plain (t : Traffic) (reply : Reply) : Prop :=
  ∀ c ∈ t.calls, ∃ wake, c = Call.plain c.id wake reply

/-- A request that waits once becomes a plain call, and enters. -/
theorem submit_plain (t : Traffic) (now id : Nat) (delay : Span) (reply : Reply) :
    t.submit now id ⟨[⟨none, [delay]⟩], some reply⟩ =
      (t.append (Call.plain id (Clock.wake now delay) reply), [.enters id none]) := rfl

/-- The timer of a plain call ends it: it leaves and returns its reply. -/
theorem expire_plain (t : Traffic) (now id wake : Nat) (reply : Reply) :
    t.expire now (Call.plain id wake reply) =
      (t.without id, [.leaves id none, .returns id reply]) := rfl

/-- One more plain call changes nothing about the others. -/
theorem Plain.append (h : t.Plain reply) (id wake : Nat) :
    (t.append (Call.plain id wake reply)).Plain reply := by
  intro c hc
  rcases List.mem_append.mp hc with hold | hnew
  · exact h c hold
  · obtain rfl := List.mem_singleton.mp hnew
    exact ⟨wake, rfl⟩

/-- One call less changes nothing about the others. -/
theorem Plain.without (h : t.Plain reply) (id : Nat) : (t.without id).Plain reply :=
  fun c hc => h c (List.mem_of_mem_eraseP hc)

end Traffic

/-! ### Actions that may not be possible -/

namespace Engine

variable {e : Engine} {a : Action}

/-- The engine after an action; nothing changes if it is not possible. -/
def after (e : Engine) (a : Action) : Engine :=
  match e.step? a with
  | some (next, _) => next
  | none => e

/-- The engine after an action that it takes. -/
theorem after_of_step? {e' : Engine} {shown : List Event} (h : e.step? a = some (e', shown)) :
    e.after a = e' := by
  rw [after, h]

/-- An action that is refused leaves the engine as it is. -/
theorem after_of_none (h : e.step? a = none) : e.after a = e := by
  rw [after, h]

/-- The clock moves forward and within its range. -/
theorem after_advance (e : Engine) (target : Nat) : e.after (.advance target) =
    if e.now ≤ target ∧ target ≤ Clock.range then { e with now := target } else e := by
  simp only [after, step?, advance?, Bool.and_eq_true, decide_eq_true_eq]
  by_cases hpasses : e.now ≤ target ∧ target ≤ Clock.range
  · rw [if_pos hpasses, if_pos hpasses]
  · rw [if_neg hpasses, if_neg hpasses]

/-- A stop counts once. -/
theorem after_stop (e : Engine) (flushes : Bool) : e.after (.stop flushes) =
    if e.isRunning then { e with status := .draining flushes e.now } else e := by
  simp only [after, step?, stop?]
  by_cases hruns : e.isRunning = true
  · rw [if_pos hruns, if_pos hruns]
  · rw [if_neg hruns, if_neg hruns]

/-- The engine after an action can be reached. -/
theorem reaches_after (e : Engine) (a : Action) : e.Reaches (e.after a) := by
  cases h : e.step? a with
  | none => rw [after_of_none h]; exact .refl e
  | some result => rw [after_of_step? h]; exact reaches_of_step? h

/-- The engine after the call of an instance has returned and its record was handed over. -/
def afterReturn (e : Engine) (i : Nat) (reply : Reply) : Engine :=
  (e.after (.reply i reply)).after (.record i)

end Engine

namespace Simulation

variable {b : Behaviour} {s : Simulation b} {delay : Span} {reply : Reply}

/-- What happens on the engine's side only is seen in the engine only. -/
theorem act_eq (s : Simulation b) (a : Action) :
    s.act a = { s with engine := s.engine.after a } := by
  unfold act Engine.after
  cases s.engine.step? a <;> rfl

/-! ### What happens to the calls -/

/-- **A request goes out**: its call waits for its timer behind all others. -/
theorem call_of_issue (uniform : b.Uniform delay reply) {i : Nat} {e : Engine} {shown : List Event}
    (h : s.engine.step? (.issue i) = some (e, shown)) :
    ∃ endpoint, s.call i = { s with
      engine := e
      endpoint
      traffic := s.traffic.append (Call.plain i (Clock.wake s.engine.now delay) reply) } := by
  have hissue : s.engine.issue? i = some (e, shown) := h
  cases Engine.steps_of_step? h with
  | @issue _ inst next cost found turn =>
    have hplace : (s.engine.setInstance i next).instances[i]? = some next :=
      List.getElem?_set_self (List.getElem?_eq_some_iff.mp found).1
    -- The endpoint may change with the request. Its answer does not depend on it.
    rcases hpair : b.answer next.client cost s.endpoint with ⟨itinerary, endpoint⟩
    have hanswer : itinerary = ⟨[⟨none, [delay]⟩], some reply⟩ :=
      (congrArg Prod.fst hpair).symm.trans (uniform next.client cost s.endpoint)
    refine ⟨endpoint, ?_⟩
    rw [call, hissue]
    simp only [hplace, hpair, hanswer, Traffic.submit_plain]
    rfl

/-- Nothing happens if no request can be issued. -/
theorem call_of_none {i : Nat} (h : s.engine.step? (.issue i) = none) : s.call i = s := by
  have hissue : s.engine.issue? i = none := h
  rw [call, hissue]

/-- **The timer of a call fires**: its instance gets the reply and hands over the record. -/
theorem expired (s : Simulation b) (id wake : Nat) (reply : Reply) :
    s.perform (.move (Call.plain id wake reply)) = { s with
      engine := s.engine.afterReturn id reply
      traffic := s.traffic.without id
      finished := (s.callOf? id).toList ++ s.finished } := by
  simp only [perform, Traffic.expire_plain, moved, deliver, act_eq, Engine.afterReturn]
  rfl

/-- A call that is due is in service. -/
theorem mem_of_due? {now : Nat} {c : Call} (h : s.traffic.due? now = some c) :
    c ∈ s.traffic.calls :=
  List.mem_of_find?_eq_some h

/-- Whatever happens, all calls wait for their timer only. -/
theorem plain_perform (uniform : b.Uniform delay reply) (hplain : s.traffic.Plain reply)
    {h : Happening} (hnext : s.next? = some h) : (s.perform h).traffic.Plain reply := by
  -- Calls change when one ends and when one goes out, and in no other case.
  cases next?_eq_some_iff.mp hnext with
  | delivers | closes | cuts =>
    rw [perform, act_eq]
    exact hplain
  | @moves c quiet runs due =>
    obtain ⟨wake, hc⟩ := hplain c (mem_of_due? due)
    rw [hc, expired]
    exact hplain.without _
  | @calls i quiet runs still issuer =>
    rw [perform]
    cases hstep : s.engine.step? (.issue i) with
    | none =>
      rw [call_of_none hstep]
      exact hplain
    | some result =>
      obtain ⟨endpoint, hcall⟩ := call_of_issue uniform hstep
      rw [hcall]
      exact hplain.append _ _

end Simulation

end ClosedLoop
