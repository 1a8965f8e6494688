import ClosedLoop.Engine.Simulation
import ClosedLoop.Proofs.Engine.Steps

namespace ClosedLoop

/-!
# Runs on the clock are runs of the engine

A simulation decides which of the possible actions comes next and when calls return. Whatever it
decides, its engine only makes steps, so what holds after every run holds after every simulation.
By itself it never tells the run to end, nor goes on for longer than it was asked to: that is up to
its owner.

* `Engine.Reaches`, `Engine.Follows` — an engine comes out of a run of another one, by actions of
  some kind;
* `Action.isOwn`, `Engine.Proceeds` — it does so by itself, up to an instant;
* `Action.isPrompt`, `Action.isTurn` — what takes no time, and what the engine does by itself;
* `Simulation.Next`, `Simulation.prompt_perform` — what happens next, and that it takes no time;
* `Simulation.Goes` — everything up to an instant, step by step and without counting them;
* `Simulation.proceeds_runUntil` — everything that happens in a simulation up to an instant is a run
  of its engine by itself;
* `Simulation.reaches_sleepUntil?`, `Simulation.reaches_endRun?` — what the owner does is a run;
* `Simulation.runUntil_quiet` — an instant is over when nothing more can happen at it.
-/

/-- Does a run take this action by itself, without the order to end and up to the instant `last`? -/
def Action.isOwn (last : Nat) : Action → Bool
  | .stop _ => false
  | .advance target => target ≤ last
  | _ => true

/-- Does a run take this action by itself and at once? -/
def Action.isPrompt : Action → Bool
  | .stop _ => false
  | .advance _ => false
  | _ => true

/-- Does the engine take this action by itself as soon as it can? Replies come from the endpoint and
the order to end from the owner, and time passes when nothing else happens. -/
def Action.isTurn : Action → Bool
  | .reply _ _ => false
  | .advance _ => false
  | .stop _ => false
  | _ => true

/-- A turn takes no time. -/
theorem Action.isPrompt_of_isTurn {a : Action} (h : a.isTurn) : a.isPrompt := by
  cases a with
  | reply | advance | stop => cases h
  | _ => rfl

/-- What takes no time is done by a run on its own. -/
theorem Action.isOwn_of_isPrompt {a : Action} (h : a.isPrompt) (last : Nat) : a.isOwn last := by
  cases a with
  | stop | advance => cases h
  | _ => rfl

namespace Engine

/-- The second engine comes out of a run of the first one. -/
def Reaches (e e' : Engine) : Prop := ∃ as events, e.run? as = some (e', events)

/-- The second engine comes out of a run of the first one with actions of one kind. -/
def Follows (P : Action → Prop) (e e' : Engine) : Prop :=
  ∃ as events, e.run? as = some (e', events) ∧ ∀ a ∈ as, P a

/-- The second engine comes out of a run of the first one that goes on by itself up to `last`. -/
def Proceeds (last : Nat) : Engine → Engine → Prop := Follows fun a => a.isOwn last

/-- A state can be reached from itself. -/
theorem Reaches.refl (e : Engine) : e.Reaches e := ⟨[], [], rfl⟩

/-- What can be reached from a state that can be reached, can be reached. -/
theorem Reaches.trans {e mid e' : Engine} (h : e.Reaches mid) (hlater : mid.Reaches e') :
    e.Reaches e' := by
  obtain ⟨as, events, hrun⟩ := h
  obtain ⟨bs, later, hrest⟩ := hlater
  exact ⟨as ++ bs, events ++ later, run?_append hrun hrest⟩

/-- A step reaches the state behind it. -/
theorem reaches_of_step? {e e' : Engine} {a : Action} {shown : List Event}
    (h : e.step? a = some (e', shown)) : e.Reaches e' :=
  ⟨[a], shown, run?_one h⟩

namespace Follows

variable {P Q : Action → Prop} {e mid e' : Engine}

/-- Nothing has to be done to stay. -/
theorem refl (e : Engine) : Follows P e e :=
  ⟨[], [], rfl, fun _ ha => absurd ha List.not_mem_nil⟩

/-- Actions of a kind may follow each other. -/
theorem trans (h : Follows P e mid) (hlater : Follows P mid e') : Follows P e e' := by
  obtain ⟨as, events, hrun, has⟩ := h
  obtain ⟨bs, later, hrest, hbs⟩ := hlater
  refine ⟨as ++ bs, events ++ later, run?_append hrun hrest, fun a ha => ?_⟩
  rcases List.mem_append.mp ha with hfirst | hsecond
  · exact has a hfirst
  · exact hbs a hsecond

/-- A step is one action of a kind. -/
theorem of_step? {a : Action} {shown : List Event} (h : e.step? a = some (e', shown))
    (ha : P a) : Follows P e e' :=
  ⟨[a], shown, run?_one h, fun _ hb => List.mem_singleton.mp hb ▸ ha⟩

/-- Actions of a kind are actions of a wider kind. -/
theorem mono (h : Follows P e e') (hPQ : ∀ a, P a → Q a) : Follows Q e e' := by
  obtain ⟨as, events, hrun, has⟩ := h
  exact ⟨as, events, hrun, fun a ha => hPQ a (has a ha)⟩

/-- What follows can be reached. -/
theorem reaches (h : Follows P e e') : e.Reaches e' := by
  obtain ⟨as, events, hrun, -⟩ := h
  exact ⟨as, events, hrun⟩

/-- What every step with such an action preserves holds afterwards. -/
theorem keeps {motive : Engine → Prop} (h : Follows P e e')
    (hstep : ∀ {mid next : Engine} {a : Action} {new : List Event}, Steps mid a next new →
      P a → motive mid → motive next) (hbefore : motive e) : motive e' := by
  obtain ⟨as, events, hrun, has⟩ := h
  induction as generalizing e events with
  | nil =>
    cases hrun
    exact hbefore
  | cons a rest ih =>
    obtain ⟨next, first, later, hfirst, hrest, rfl⟩ := run?_cons_iff.mp hrun
    obtain ⟨ha, hothers⟩ := List.forall_mem_cons.mp has
    exact ih (hstep (steps_of_step? hfirst) ha hbefore) later hrest hothers

end Follows

/-- What happens at once happens by itself. -/
theorem Follows.proceeds {e e' : Engine} (h : Follows (·.isPrompt) e e') (last : Nat) :
    Proceeds last e e' :=
  h.mono fun _ ha => Action.isOwn_of_isPrompt ha last

end Engine

namespace Simulation

variable {b : Behaviour} {last : Nat}

/-! ### What happens by itself -/

/-- An action is taken, or nothing is done. -/
theorem follows_act {P : Action → Prop} (s : Simulation b) {a : Action} (ha : P a) :
    Engine.Follows P s.engine (s.act a).engine := by
  unfold act
  cases h : s.engine.step? a with
  | none => exact .refl _
  | some result => exact .of_step? h ha

/-- Handing replies and records over takes no time. -/
theorem prompt_deliver (s : Simulation b) (passages : List Passage) :
    Engine.Follows (·.isPrompt) s.engine (s.deliver passages).engine := by
  induction passages generalizing s with
  | nil => exact .refl _
  | cons passage rest ih =>
    cases passage with
    | returns i reply =>
      have hact (s : Simulation b) {a : Action} (ha : a.isPrompt) :
          Engine.Follows (·.isPrompt) s.engine (s.act a).engine := follows_act s ha
      exact (hact { s with finished := (s.callOf? i).toList ++ s.finished } (a := .reply i reply)
        rfl).trans ((hact _ (a := .record i) rfl).trans (ih _))
    | _ => exact ih s

/-- Moving a call on takes no time. -/
theorem prompt_moved (s : Simulation b) (move : Traffic × List Passage) :
    Engine.Follows (·.isPrompt) s.engine (s.moved move).engine :=
  prompt_deliver { s with traffic := move.1 } move.2

/-- Issuing a request and sending the call out takes no time. -/
theorem prompt_call (s : Simulation b) (i : Nat) :
    Engine.Follows (·.isPrompt) s.engine (s.call i).engine := by
  unfold call
  split
  · rename_i engine i' t cost hissue
    have hstep : s.engine.step? (.issue i) = some (engine, [.issued i' t cost]) := hissue
    split
    · rename_i inst _
      rcases b.answer inst.client cost s.endpoint with ⟨itinerary, endpoint⟩
      have hfirst : Engine.Follows (·.isPrompt) s.engine engine := .of_step? hstep rfl
      exact hfirst.trans (prompt_moved { s with engine, endpoint } _)
    · exact .refl _
  · exact .refl _

/-- The engine delivers snapshots by itself. -/
theorem isTurn_of_delivery? {e : Engine} {a : Action} (h : e.delivery? = some a) : a.isTurn := by
  unfold Engine.delivery? at h
  split at h
  · cases h
    rfl
  · obtain ⟨m, -, rfl⟩ := Option.map_eq_some_iff.mp h
    rfl

/-- The engine does what is to be done at the end of a run by itself. -/
theorem isTurn_of_closing? {e : Engine} {a : Action} (h : e.closing? = some a) : a.isTurn := by
  unfold Engine.closing? at h
  split at h
  · cases h
  · split at h
    · obtain ⟨inst, -, rfl⟩ := Option.map_eq_some_iff.mp h
      unfold Engine.ending
      split <;> rfl
    · split at h
      · cases h
        rfl
      · split at h <;> cases h <;> rfl

/-! ### What happens next -/

/-- What may happen next: everything in its order, each only if there is nothing before it. -/
inductive Next (s : Simulation b) : Happening → Prop where
  | delivers {a : Action} (delivery : s.engine.delivery? = some a) : Next s (.action a)
  | closes {a : Action} (quiet : s.engine.delivery? = none)
      (closing : s.engine.closing? = some a) : Next s (.action a)
  | moves {c : Call} (quiet : s.engine.delivery? = none) (runs : s.engine.isRunning = true)
      (due : s.traffic.due? s.engine.now = some c) : Next s (.move c)
  | calls {i : Nat} (quiet : s.engine.delivery? = none) (runs : s.engine.isRunning = true)
      (still : s.traffic.due? s.engine.now = none) (issuer : s.engine.issuer? = some i) :
      Next s (.call i)
  | cuts {m : Nat} (quiet : s.engine.delivery? = none) (runs : s.engine.isRunning = true)
      (still : s.traffic.due? s.engine.now = none) (idle : s.engine.issuer? = none)
      (due : s.engine.dueMonitor? = some m) : Next s (.action (.cut m))

/-- Nothing closes a run that goes on. -/
theorem closing?_of_isRunning {e : Engine} (h : e.isRunning = true) : e.closing? = none := by
  rw [Engine.closing?, if_pos h]

/-- What happens next is what `Simulation.Next` says. -/
theorem next?_eq_some_iff {s : Simulation b} {h : Happening} : s.next? = some h ↔ s.Next h := by
  unfold next?
  constructor
  · intro hnext
    -- The five kinds of happenings are looked for one after the other, and the first found is next.
    cases hfirst : s.engine.delivery?.or s.engine.closing? with
    | some first =>
      simp only [hfirst, Option.some.injEq] at hnext
      subst hnext
      rcases Option.or_eq_some_iff.mp hfirst with hdelivery | ⟨hquiet, hclosing⟩
      · exact .delivers hdelivery
      · exact .closes hquiet hclosing
    | none =>
      obtain ⟨hquiet, -⟩ := Option.or_eq_none_iff.mp hfirst
      simp only [hfirst] at hnext
      by_cases hruns : s.engine.isRunning = true
      · rw [if_pos hruns] at hnext
        split at hnext
        · rename_i hdue
          cases hnext
          exact .moves hquiet hruns hdue
        rename_i hstill
        split at hnext
        · rename_i hissuer
          cases hnext
          exact .calls hquiet hruns hstill hissuer
        rename_i hidle
        obtain ⟨m, hdue, rfl⟩ := Option.map_eq_some_iff.mp hnext
        exact .cuts hquiet hruns hstill hidle hdue
      · rw [if_neg hruns] at hnext
        cases hnext
  · intro hnext
    cases hnext with
    | delivers delivery => simp [delivery]
    | closes quiet closing => simp [quiet, closing]
    | moves quiet runs due => simp [quiet, closing?_of_isRunning runs, runs, due]
    | calls quiet runs still issuer =>
      simp [quiet, closing?_of_isRunning runs, runs, still, issuer]
    | cuts quiet runs still idle due =>
      simp [quiet, closing?_of_isRunning runs, runs, still, idle, due]

/-- Nothing happens next if each of the five kinds has nothing to offer. -/
theorem next?_eq_none_iff {s : Simulation b} : s.next? = none ↔
    s.engine.delivery? = none ∧ s.engine.closing? = none ∧
      (s.engine.isRunning = true → s.traffic.due? s.engine.now = none ∧
        s.engine.issuer? = none ∧ s.engine.dueMonitor? = none) := by
  constructor
  -- Each kind has nothing to offer as those before it have nothing.
  · intro hnone
    have hnot : ∀ h, ¬s.Next h := fun h hnext => by
      rw [next?_eq_some_iff.mpr hnext] at hnone
      cases hnone
    have hquiet : s.engine.delivery? = none :=
      Option.eq_none_iff_forall_ne_some.mpr fun a ha => hnot _ (.delivers ha)
    refine ⟨hquiet, Option.eq_none_iff_forall_ne_some.mpr fun a ha => hnot _ (.closes hquiet ha),
      fun hruns => ?_⟩
    have hstill : s.traffic.due? s.engine.now = none :=
      Option.eq_none_iff_forall_ne_some.mpr fun c hc => hnot _ (.moves hquiet hruns hc)
    have hidle : s.engine.issuer? = none :=
      Option.eq_none_iff_forall_ne_some.mpr fun i hi => hnot _ (.calls hquiet hruns hstill hi)
    exact ⟨hstill, hidle, Option.eq_none_iff_forall_ne_some.mpr fun m hm =>
      hnot _ (.cuts hquiet hruns hstill hidle hm)⟩
  · rintro ⟨hquiet, hclosing, hruns⟩
    refine Option.eq_none_iff_forall_ne_some.mpr fun h hnext => ?_
    cases next?_eq_some_iff.mp hnext with
    | delivers delivery => rw [hquiet] at delivery; cases delivery
    | closes _ closing => rw [hclosing] at closing; cases closing
    | moves _ runs due => rw [(hruns runs).1] at due; cases due
    | calls _ runs _ issuer => rw [(hruns runs).2.1] at issuer; cases issuer
    | cuts _ runs _ _ due => rw [(hruns runs).2.2] at due; cases due

/-- Only the engine acts by itself; calls and replies are for the endpoint. -/
theorem Next.isTurn {s : Simulation b} {a : Action} (h : s.Next (.action a)) : a.isTurn := by
  cases h with
  | delivers delivery => exact isTurn_of_delivery? delivery
  | closes quiet closing => exact isTurn_of_closing? closing
  | cuts => rfl

/-- What happens next in a simulation takes no time. -/
theorem prompt_perform (s : Simulation b) {h : Happening} (hnext : s.next? = some h) :
    Engine.Follows (·.isPrompt) s.engine (s.perform h).engine := by
  cases h with
  | call i => exact prompt_call s i
  | move c => exact prompt_moved s _
  | action a =>
    have hturn := (next?_eq_some_iff.mp hnext).isTurn
    exact follows_act s (Action.isPrompt_of_isTurn hturn)

/-! ### What happens up to an instant -/

/-- The second simulation comes out of the first one when everything up to an instant has
happened. -/
inductive Goes (target : Nat) : Simulation b → Simulation b → Prop where
  | happens {s s' : Simulation b} {h : Happening} (next : s.next? = some h)
      (rest : Goes target (s.perform h) s') : Goes target s s'
  | passes {s s' : Simulation b} {t : Nat} (quiet : s.next? = none) (wake : s.nextWake? = some t)
      (within : t ≤ target) (rest : Goes target (s.act (.advance t)) s') : Goes target s s'
  | arrives {s : Simulation b} (quiet : s.next? = none)
      (beyond : ∀ t, s.nextWake? = some t → target < t) : Goes target s (s.act (.advance target))

variable {target : Nat} {s s' : Simulation b}

/-- What a simulation does with enough fuel is what it goes through. -/
theorem goes_of_runUntil {fuel : Nat} (h : runUntil target fuel s = some s') :
    Goes target s s' := by
  induction fuel generalizing s with
  | zero => cases h
  | succ fuel ih =>
    rw [runUntil] at h
    cases hnext : s.next? with
    | some happening =>
      simp only [hnext] at h
      exact .happens hnext (ih h)
    | none =>
      simp only [hnext] at h
      -- Nothing more can happen at this instant, so time passes.
      cases hwake : s.nextWake? with
      | none =>
        simp only [hwake] at h
        cases h
        exact .arrives hnext fun t ht => by rw [hwake] at ht; cases ht
      | some t =>
        simp only [hwake] at h
        by_cases hle : t ≤ target
        · rw [if_pos hle] at h
          exact .passes hnext hwake hle (ih h)
        · rw [if_neg hle] at h
          cases h
          refine .arrives hnext fun w hw => ?_
          rw [hwake] at hw
          cases hw
          omega

/-- More fuel does no harm. -/
theorem Goes.runUntil (h : Goes target s s') :
    ∃ enough, ∀ fuel, enough ≤ fuel → Simulation.runUntil target fuel s = some s' := by
  induction h with
  -- A happening costs one unit of fuel, and so does the passing of time to the next timer.
  | happens next rest ih =>
    obtain ⟨enough, hall⟩ := ih
    refine ⟨enough + 1, fun fuel hfuel => ?_⟩
    obtain ⟨less, rfl⟩ := Nat.exists_eq_add_of_le' (Nat.le_trans (Nat.le_add_left 1 _) hfuel)
    simp only [Simulation.runUntil, next]
    exact hall less (by omega)
  | passes quiet wake within rest ih =>
    obtain ⟨enough, hall⟩ := ih
    refine ⟨enough + 1, fun fuel hfuel => ?_⟩
    obtain ⟨less, rfl⟩ := Nat.exists_eq_add_of_le' (Nat.le_trans (Nat.le_add_left 1 _) hfuel)
    simp only [Simulation.runUntil, quiet, wake, if_pos within]
    exact hall less (by omega)
  | @arrives s quiet beyond =>
    refine ⟨1, fun fuel hfuel => ?_⟩
    obtain ⟨less, rfl⟩ := Nat.exists_eq_add_of_le' hfuel
    rw [Simulation.runUntil]
    simp only [quiet]
    cases hwake : s.nextWake? with
    | none => rfl
    | some t => exact if_neg (Nat.not_le.mpr (beyond t hwake))

/-- Everything that happens up to an instant is up to the run. At the instant where it stops,
nothing more can happen but the passing of time. -/
theorem Goes.quiet (h : Goes target s s') :
    ∃ quiet : Simulation b, Engine.Proceeds target s.engine quiet.engine ∧ quiet.next? = none ∧
      s' = quiet.act (.advance target) := by
  induction h with
  | happens next rest ih =>
    obtain ⟨quiet, hproceeds, hquiet, hs'⟩ := ih
    exact ⟨quiet, ((prompt_perform _ next).proceeds target).trans hproceeds, hquiet, hs'⟩
  | @passes s s' t quiet wake within rest ih =>
    have hadvance : Engine.Proceeds target s.engine (s.act (.advance t)).engine :=
      follows_act s (decide_eq_true within)
    obtain ⟨last, hproceeds, hquiet, hs'⟩ := ih
    exact ⟨last, hadvance.trans hproceeds, hquiet, hs'⟩
  | arrives quiet beyond => exact ⟨_, .refl _, quiet, rfl⟩

/-- Up to an instant a simulation comes to rest, and then the time passes that is left. -/
theorem runUntil_quiet {fuel : Nat} (h : Simulation.runUntil target fuel s = some s') :
    ∃ quiet : Simulation b, Engine.Proceeds target s.engine quiet.engine ∧ quiet.next? = none ∧
      s' = quiet.act (.advance target) :=
  (goes_of_runUntil h).quiet

/-- A simulation up to an instant is the engine going on by itself. -/
theorem proceeds_runUntil {fuel : Nat} (h : runUntil target fuel s = some s') :
    Engine.Proceeds target s.engine s'.engine := by
  obtain ⟨quiet, hproceeds, -, rfl⟩ := runUntil_quiet h
  exact hproceeds.trans (follows_act quiet (decide_eq_true (Nat.le_refl target)))

/-! ### What the owner does -/

/-- An action that a simulation takes can be taken by its engine. -/
theorem reaches_act (s : Simulation b) (a : Action) : s.engine.Reaches (s.act a).engine := by
  unfold act
  cases h : s.engine.step? a with
  | none => exact .refl _
  | some result => exact Engine.reaches_of_step? h

/-- A simulation that sleeps leads to a state that its engine can reach. -/
theorem reaches_sleepUntil? {target : Nat} {s s' : Simulation b}
    (h : s.sleepUntil? target = some s') : s.engine.Reaches s'.engine :=
  (proceeds_runUntil h).reaches

/-- Ending a run is part of the run. -/
theorem reaches_endRun? {flushes : Bool} {s s' : Simulation b}
    (h : s.endRun? flushes = some s') : s.engine.Reaches s'.engine :=
  (reaches_act { s with traffic := Traffic.idle b.capacity } (.stop flushes)).trans
    (proceeds_runUntil h).reaches

end Simulation

end ClosedLoop
