import ClosedLoop.Proofs.Engine.OnTime
import ClosedLoop.Proofs.Engine.Rounds
import ClosedLoop.Proofs.Service.Gist

namespace ClosedLoop

/-!
# Runs that are alike

Nothing that a run shows depends on the messages and flags of replies: an error that may be retried
is counted and followed by the think time like any other. Runs whose calls go through the same
stages and are counted alike go the same way, whatever the replies say.

* `Engine.step?_gist`, `Engine.run?_gist` — an engine goes the same way for replies and their gist;
* `Behaviour.Alike` — endpoints that answer the same calls by itineraries with the same gist;
* `Simulation.Alike` — the simulations are the same but for what the replies in service say;
* `Simulation.Alike.perform`, `Simulation.Alike.runUntil`, `Simulation.Alike.obey?` — so they stay,
  whatever happens and whatever their owner does;
* `Simulation.retryable_indifferent` — **messages and flags of replies have no effect**.
-/

/-- The action with the gist of its reply. -/
def Action.gist : Action → Action
  | .reply i answer => .reply i answer.gist
  | a => a

/-- The event with the gist of its reply. -/
def Event.gist : Event → Event
  | .returned i time answer => .returned i time answer.gist
  | event => event

/-! ### Engines -/

namespace Engine

variable {e e' : Engine} {a : Action} {shown : List Event}

/-- The engine that a run comes to, and its events with the gist of their replies. -/
def gistOf (result : Engine × List Event) : Engine × List Event :=
  (result.1, result.2.map Event.gist)

/-- Only the return of a call shows a reply. -/
theorem Steps.map_gist (h : Steps e a e' shown) (hne : ∀ i reply, a ≠ .reply i reply) :
    shown.map Event.gist = shown := by
  cases h with
  | @reply i answer => exact absurd rfl (hne i answer)
  | _ => rfl

/-- An instance takes notice of nothing but the gist of a reply. -/
theorem reply?_gist (e : Engine) (i : Nat) (r : Reply) :
    e.reply? i r.gist = (e.reply? i r).map gistOf := by
  simp only [reply?]
  cases e.instances[i]? with
  | none => rfl
  | some inst =>
    have hsame : inst.receive? e.now r.gist = inst.receive? e.now r := by
      simp only [Instance.receive?, Instance.recordOf, Reply.outcome_gist]
    simp only [Option.bind_eq_bind, Option.bind_some, hsame]
    cases inst.receive? e.now r <;> rfl

/-- **An engine goes the same way** for a reply and for its gist. -/
theorem step?_gist (e : Engine) (a : Action) : e.step? a.gist = (e.step? a).map gistOf := by
  have hother : (∀ i reply, a ≠ .reply i reply) → e.step? a = (e.step? a).map gistOf := by
    intro hne
    cases hstep : e.step? a with
    | none => rfl
    | some result =>
      obtain ⟨e', shown⟩ := result
      rw [Option.map_some, gistOf, (steps_of_step? hstep).map_gist hne]
  cases a with
  | reply i r => exact e.reply?_gist i r
  | _ => exact hother fun _ _ hne => by cases hne

/-- The gist of the actions decides the gist of a run. -/
theorem run?_gist (e : Engine) (as : List Action) :
    e.run? (as.map Action.gist) = (e.run? as).map gistOf := by
  induction as generalizing e with
  | nil => rfl
  | cons a rest ih =>
    -- The first action gives the same engine and events alike, and the rest follows from there.
    simp only [List.map_cons, run?, step?_gist]
    cases e.step? a with
    | none => rfl
    | some result =>
      obtain ⟨next, first⟩ := result
      simp only [Option.map_some, Option.bind_eq_bind, Option.bind_some, gistOf, ih]
      cases next.run? rest with
      | none => rfl
      | some last => simp [gistOf]

end Engine

/-! ### Endpoints -/

namespace Behaviour

/-- The state of an endpoint after some calls. -/
def after (b : Behaviour) (calls : List (ClientId × Cost)) : b.State :=
  calls.foldl (fun s call => (b.answer call.1 call.2 s).2) b.start

/-- Endpoints with the same pools that, after the same calls, answer a call by itineraries with the
    same gist: it takes the same times and is counted alike. -/
structure Alike (b b' : Behaviour) : Prop where
  capacity : b.capacity = b'.capacity
  answer : ∀ (calls : List (ClientId × Cost)) (client : ClientId) (cost : Cost),
    (b.answer client cost (b.after calls)).1.gist =
      (b'.answer client cost (b'.after calls)).1.gist

/-- The endpoint after one more request. -/
theorem after_append (b : Behaviour) (calls : List (ClientId × Cost)) (client : ClientId)
    (cost : Cost) :
    b.after (calls ++ [(client, cost)]) = (b.answer client cost (b.after calls)).2 := by
  rw [after, List.foldl_append]
  rfl

/-- The endpoint with its replies rewritten. -/
def rewritten (b : Behaviour) (f : Reply → Reply) : Behaviour where
  State := b.State
  start := b.start
  capacity := b.capacity
  answer client cost := fun s =>
    let (itinerary, next) := b.answer client cost s
    ({ itinerary with reply := itinerary.reply.map f }, next)

/-- Rewriting replies so that they are counted as before gives an endpoint that is alike. -/
theorem alike_rewritten (b : Behaviour) {f : Reply → Reply}
    (hf : ∀ r, (f r).outcome = r.outcome) : b.Alike (b.rewritten f) where
  capacity := rfl
  answer calls client cost := by
    have hafter : (b.rewritten f).after calls = b.after calls := rfl
    rw [hafter]
    show _ = Itinerary.gist { (b.answer client cost (b.after calls)).1 with
      reply := (b.answer client cost (b.after calls)).1.reply.map f }
    simp only [Itinerary.gist, Option.map_map]
    refine congrArg (Itinerary.mk _) (congrArg (Option.map · _) (funext fun r => ?_))
    exact (Reply.gist_eq_iff.mpr (hf r)).symm

end Behaviour

/-! ### Simulations -/

/-- What the owner of a run does. -/
inductive Order where
  /-- He sleeps until an instant. -/
  | sleep (target : Nat)
  /-- He tells the run to end, with a final flush or without, and awaits the end. -/
  | stop (flushes : Bool)

/-- What may happen, with the gist of the reply of a call. -/
def Happening.gist : Happening → Happening
  | .move c => .move c.gist
  | h => h

namespace Simulation

/-- The simulation after what its owner does. -/
def obey? {b : Behaviour} (s : Simulation b) : List Order → Option (Simulation b)
  | [] => some s
  | .sleep target :: rest => (s.sleepUntil? target).bind fun next => next.obey? rest
  | .stop flushes :: rest => (s.endRun? flushes).bind fun next => next.obey? rest

variable {b b' : Behaviour}

/-- The same engine and the same calls, but for what replies say. -/
structure Alike (s : Simulation b) (s' : Simulation b') : Prop where
  engine : s.engine = s'.engine
  traffic : s.traffic.gist = s'.traffic.gist
  finished : s.finished = s'.finished
  /-- The endpoints were called alike. -/
  endpoint : ∃ calls, s.endpoint = b.after calls ∧ s'.endpoint = b'.after calls

/-- Two simulations of alike endpoints are alike at the start. -/
theorem alike_start (h : b.Alike b') (config : EngineConfig) (profiles : List Profile) :
    (start b config profiles).Alike (start b' config profiles) where
  engine := rfl
  traffic := by rw [start, start, h.capacity]
  finished := rfl
  endpoint := ⟨[], rfl, rfl⟩

variable {s : Simulation b} {s' : Simulation b'}

/-! #### What happens -/

/-- An action of the engine does not see what the gist leaves out. -/
theorem act_gist (s : Simulation b) (a : Action) : s.act a.gist = s.act a := by
  unfold act
  rw [Engine.step?_gist]
  cases s.engine.step? a <;> rfl

/-- Replies may be delivered by their gist. -/
theorem deliver_gist (s : Simulation b) (passages : List Passage) :
    s.deliver (passages.map Passage.gist) = s.deliver passages := by
  induction passages generalizing s with
  | nil => rfl
  | cons passage rest ih =>
    cases passage with
    | returns i reply =>
      have hreply := act_gist { s with finished := (s.callOf? i).toList ++ s.finished }
        (.reply i reply)
      simp only [List.map_cons, Passage.gist, deliver, ih]
      rw [← hreply]
      rfl
    | _ => exact ih s

namespace Alike

/-- An action of the engine happens to both. -/
theorem act (h : s.Alike s') (a : Action) : (s.act a).Alike (s'.act a) := by
  unfold Simulation.act
  rw [← h.engine]
  cases s.engine.step? a with
  | none => exact h
  | some result => exact ⟨rfl, h.traffic, h.finished, h.endpoint⟩

/-- What is delivered happens to both. -/
theorem deliver (h : s.Alike s') (passages : List Passage) :
    (s.deliver passages).Alike (s'.deliver passages) := by
  induction passages generalizing s s' with
  | nil => exact h
  | cons passage rest ih =>
    cases passage with
    | returns i reply =>
      -- The same call has returned, and its record is handed over in both.
      have hcall : s.callOf? i = s'.callOf? i := by
        unfold callOf?
        rw [h.engine]
      have hfinished : ({ s with finished := (s.callOf? i).toList ++ s.finished }).Alike
          { s' with finished := (s'.callOf? i).toList ++ s'.finished } :=
        ⟨h.engine, h.traffic, by rw [hcall, h.finished], h.endpoint⟩
      exact ih ((hfinished.act (.reply i reply)).act (.record i))
    | _ => exact ih h

/-- Moves with the same gist happen to both. -/
theorem moved (h : s.Alike s') {move move' : Traffic × List Passage}
    (hmove : Traffic.gistOf move = Traffic.gistOf move') :
    (s.moved move).Alike (s'.moved move') := by
  obtain ⟨htraffic, hpassages⟩ := Prod.mk.inj hmove
  have hstart : ({ s with traffic := move.1 }).Alike { s' with traffic := move'.1 } :=
    ⟨h.engine, htraffic, h.finished, h.endpoint⟩
  unfold Simulation.moved
  rw [← deliver_gist, ← deliver_gist { s' with traffic := move'.1 }, hpassages]
  exact hstart.deliver _

/-- An instance issues the same request, and the endpoints answer it alike. -/
theorem call (halike : b.Alike b') (h : s.Alike s') (i : Nat) : (s.call i).Alike (s'.call i) := by
  unfold Simulation.call
  rw [← h.engine]
  split
  -- The engines are equal, so the request goes out in both or in none.
  · rename_i engine j time cost hissue
    split
    · rename_i inst found
      obtain ⟨calls, hendpoint, hendpoint'⟩ := h.endpoint
      have hanswer := halike.answer calls inst.client cost
      rw [hendpoint, hendpoint']
      have hcalled : Alike
          { s with engine, endpoint := (b.answer inst.client cost (b.after calls)).2 }
          { s' with engine, endpoint := (b'.answer inst.client cost (b'.after calls)).2 } :=
        ⟨rfl, h.traffic, h.finished, calls ++ [(inst.client, cost)],
          (b.after_append calls inst.client cost).symm,
          (b'.after_append calls inst.client cost).symm⟩
      refine hcalled.moved ?_
      rw [← Traffic.submit_gist, ← Traffic.submit_gist, h.traffic, hanswer]
    · exact h
  · exact h

/-- In simulations that are alike the same happens next. -/
theorem next? (h : s.Alike s') : s.next?.map Happening.gist = s'.next?.map Happening.gist := by
  have hdue : (s.traffic.due? s.engine.now).map Call.gist =
      (s'.traffic.due? s.engine.now).map Call.gist := by
    rw [← Traffic.due?_gist, ← Traffic.due?_gist, h.traffic]
  unfold Simulation.next?
  rw [← h.engine]
  -- The engines deliver and close alike, so the next call to move decides.
  cases s.engine.delivery?.or s.engine.closing? with
  | some a => rfl
  | none =>
    by_cases hruns : s.engine.isRunning = true
    · simp only [if_pos hruns]
      cases hcall : s.traffic.due? s.engine.now with
      | none =>
        rw [hcall, Option.map_none] at hdue
        rw [Option.map_eq_none_iff.mp hdue.symm]
      | some c =>
        rw [hcall, Option.map_some] at hdue
        obtain ⟨c', hcall', hgist⟩ := Option.map_eq_some_iff.mp hdue.symm
        rw [hcall']
        exact congrArg (fun c => some (Happening.move c)) hgist.symm
    · simp only [if_neg hruns]

/-- **What happens leaves the simulations alike.** -/
theorem perform (halike : b.Alike b') (h : s.Alike s') {happening happening' : Happening}
    (hsame : happening.gist = happening'.gist) :
    (s.perform happening).Alike (s'.perform happening') := by
  cases happening with
  | action a =>
    cases happening' with
    -- Happenings of different kinds have different gists.
    | action a' => cases hsame; exact h.act a
    | call | move => cases hsame
  | call i =>
    cases happening' with
    | call i' => cases hsame; exact h.call halike i
    | action | move => cases hsame
  | move c =>
    cases happening' with
    | move c' =>
      refine h.moved ?_
      have hgist : c.gist = c'.gist := Happening.move.inj hsame
      rw [← Traffic.expire_gist, ← Traffic.expire_gist, h.traffic, h.engine, hgist]
    | action | call => cases hsame

/-- Both sleep until the same instant. -/
theorem nextWake? (h : s.Alike s') : s.nextWake? = s'.nextWake? := by
  unfold Simulation.nextWake?
  rw [h.engine, ← s.traffic.nextWake?_gist, h.traffic, s'.traffic.nextWake?_gist]

/-- **Everything up to an instant happens alike**, or neither simulation gets there. -/
theorem runUntil (halike : b.Alike b') (h : s.Alike s') (target fuel : Nat) :
    Option.Rel Alike (Simulation.runUntil target fuel s) (Simulation.runUntil target fuel s') := by
  induction fuel generalizing s s' with
  | zero => exact .none
  | succ fuel ih =>
    have hnext := h.next?
    have hwake := h.nextWake?
    rw [Simulation.runUntil, Simulation.runUntil]
    cases hs : s.next? with
    | some happening =>
      rw [hs, Option.map_some] at hnext
      obtain ⟨happening', hs', hgist⟩ := Option.map_eq_some_iff.mp hnext.symm
      -- Something happens, and the rest of the run is alike by induction.
      simp only [hs']
      exact ih (h.perform halike hgist.symm)
    | none =>
      rw [hs, Option.map_none] at hnext
      simp only [Option.map_eq_none_iff.mp hnext.symm, ← hwake]
      cases s.nextWake? with
      -- Nothing happens before the next timer, which is the same in both.
      | none => exact .some (h.act _)
      | some t =>
        simp only
        split
        · exact ih (h.act _)
        · exact .some (h.act _)

/-! #### What the owner does -/

/-- Both are told to stop. -/
theorem told (halike : b.Alike b') (h : s.Alike s') (flushes : Bool) :
    (s.told flushes).Alike (s'.told flushes) := by
  have habandoned : Alike { s with traffic := Traffic.idle b.capacity }
      { s' with traffic := Traffic.idle b'.capacity } :=
    ⟨h.engine, by rw [halike.capacity], h.finished, h.endpoint⟩
  exact habandoned.act (.stop flushes)

/-- Whatever the owner does, the simulations stay alike. -/
theorem obey? (halike : b.Alike b') (h : s.Alike s') (orders : List Order) :
    Option.Rel Alike (s.obey? orders) (s'.obey? orders) := by
  induction orders generalizing s s' with
  | nil => exact .some h
  | cons order rest ih =>
    -- What comes of the first order is alike, and so is what comes of the others.
    have hbind : ∀ {o : Option (Simulation b)} {o' : Option (Simulation b')},
        Option.Rel Alike o o' → Option.Rel Alike (o.bind fun next => next.obey? rest)
          (o'.bind fun next => next.obey? rest) := by
      intro o o' ho
      cases ho with
      | none => exact .none
      | some hfirst => exact ih hfirst
    cases order with
    | sleep target => exact hbind (h.runUntil halike target patience)
    | stop flushes =>
      have hstop := (h.told halike flushes).runUntil halike s.engine.now patience
      rw [Simulation.obey?, Simulation.obey?, endRun?_eq, endRun?_eq, ← h.engine]
      exact hbind hstop

end Alike

/-- **Messages and flags of replies have no effect.** An engine that takes the same actions, with
    replies that are counted alike, does the same or cannot in both cases, and tells the same but
    for what the replies say. Simulations of endpoints that answer the same calls after the same
    times by replies that are counted alike go the same way, whatever their owner does: the engines
    are the same, with all they report, and so are the calls that have returned and the calls in
    service. -/
theorem retryable_indifferent :
    (∀ {e : Engine} {as bs : List Action}, as.map Action.gist = bs.map Action.gist →
      (e.run? as).map Engine.gistOf = (e.run? bs).map Engine.gistOf) ∧
    ∀ {b b' : Behaviour}, b.Alike b' →
      ∀ (config : EngineConfig) (profiles : List Profile) (orders : List Order),
        Option.Rel Alike ((start b config profiles).obey? orders)
          ((start b' config profiles).obey? orders) := by
  refine ⟨fun {e as bs} hsame => ?_, fun halike config profiles orders =>
    (alike_start halike config profiles).obey? halike orders⟩
  rw [← e.run?_gist, hsame, e.run?_gist]

/-- Calls that fail, time out and go well in turn. -/
def unsteady : Behaviour :=
  Script.behaviour [⟨some (Span.ofMillis 1), .failure, false⟩,
    ⟨some (Span.ofMillis 2), .timeout, true⟩, ⟨some (Span.ofMillis 1), .success, false⟩]

/-- The reply with the opposite flag and no message, if it is an error. -/
def opposite : Reply → Reply
  | .ok completion => .ok completion
  | .error e => .error ⟨e.kind, "", !e.retryable⟩

/-- The opposite flag does not change the outcome. -/
theorem outcome_opposite (r : Reply) : (opposite r).outcome = r.outcome := by
  cases r <;> rfl

/-- Two instances that think for five milliseconds, told to end after sixteen: the opposite flags
    change nothing, nor does the gist of the replies in a sequence of actions. -/
theorem retryable_indifferent_unsteady :
    (∃ e told told', (Engine.start (.standard 1) [Engine.thinkingPair]).run? Engine.twoRounds =
        some (e, told) ∧
      (Engine.start (.standard 1) [Engine.thinkingPair]).run? (Engine.twoRounds.map Action.gist) =
        some (e, told') ∧ told.map Event.gist = told'.map Event.gist) ∧
    unsteady.Alike (unsteady.rewritten opposite) ∧
    ∃ s s', (start unsteady (.standard 1) [Engine.thinkingPair]).obey?
        [.sleep 16000000, .stop true] = some s ∧
      (start (unsteady.rewritten opposite) (.standard 1) [Engine.thinkingPair]).obey?
        [.sleep 16000000, .stop true] = some s' ∧
      s.engine.report?.isSome ∧ s.finished.length = 6 ∧ s.Alike s' := by
  obtain ⟨hengine, hsimulated⟩ := retryable_indifferent
  have halike : unsteady.Alike (unsteady.rewritten opposite) :=
    unsteady.alike_rewritten outcome_opposite
  refine ⟨?_, halike, ?_⟩
  · have hruns : ((Engine.start (.standard 1) [Engine.thinkingPair]).run?
        Engine.twoRounds).isSome := by decide +kernel
    obtain ⟨⟨e, told⟩, h⟩ := Option.isSome_iff_exists.mp hruns
    -- The gists of the actions have themselves as gists.
    have hgists : Engine.twoRounds.map Action.gist =
        (Engine.twoRounds.map Action.gist).map Action.gist := rfl
    have hsame := hengine (e := Engine.start (.standard 1) [Engine.thinkingPair]) hgists
    rw [h, Option.map_some] at hsame
    obtain ⟨⟨e', told'⟩, h', hgist⟩ := Option.map_eq_some_iff.mp hsame.symm
    obtain ⟨rfl, htold⟩ := Prod.mk.inj hgist
    exact ⟨_, told, told', h, h', htold.symm⟩
  · have hruns : ((start unsteady (.standard 1) [Engine.thinkingPair]).obey?
        [.sleep 16000000, .stop true]).any fun s =>
          s.engine.report?.isSome && decide (s.finished.length = 6) := by decide +kernel
    obtain ⟨s, hs, hruns⟩ := (Option.any_eq_true _ _).mp hruns
    rw [Bool.and_eq_true, decide_eq_true_eq] at hruns
    have hsame := hsimulated halike (.standard 1) [Engine.thinkingPair]
      [.sleep 16000000, .stop true]
    rw [hs] at hsame
    generalize (start (unsteady.rewritten opposite) (.standard 1) [Engine.thinkingPair]).obey?
      [.sleep 16000000, .stop true] = result at hsame ⊢
    cases hsame with
    | some hlast => exact ⟨s, _, hs, rfl, hruns.1, hruns.2, hlast⟩

end Simulation

end ClosedLoop
