import ClosedLoop.Proofs.Engine.Steps

namespace ClosedLoop

/-!
# What a run does to one instance

* `Instance.Moves` — what a step can do to an instance, with the events it shows of it;
* `Engine.Steps.moves` — every step moves every instance so, and time does not go back;
* `Engine.run?_instance` — what every move preserves holds of an instance after every run.
-/

/-- The instance that an event tells of, if any. -/
def Event.instance? : Event → Option Nat
  | .issued i _ _ => some i
  | .returned i _ _ => some i
  | .recorded i _ _ => some i
  | .quit i _ => some i
  | _ => none

/-- The events that tell of an instance. -/
def eventsOf (i : Nat) (events : List Event) : List Event :=
  events.filter (·.instance? = some i)

@[simp] theorem eventsOf_nil (i : Nat) : eventsOf i [] = [] := rfl

@[simp] theorem eventsOf_append (i : Nat) (before after : List Event) :
    eventsOf i (before ++ after) = eventsOf i before ++ eventsOf i after :=
  List.filter_append before after

/-- An event belongs to one instance at most. -/
theorem eventsOf_singleton (i : Nat) (event : Event) :
    eventsOf i [event] = if event.instance? = some i then [event] else [] := by
  by_cases h : event.instance? = some i <;> simp [eventsOf, h]

/-! ### Moves -/

/-- What a step at an instant can do to an instance, with the events it shows of it. -/
inductive Instance.Moves (i now : Nat) (inst : Instance) : Instance → List Event → Prop where
  | stays : Moves i now inst inst []
  | issues {wake : Nat} {cost : Cost} {words : Xoshiro} (waits : inst.phase.wake? = some wake)
      (due : wake ≤ now) (drawn : inst.profile.drawCost inst.words = (cost, words)) :
      Moves i now inst { inst with words, phase := .awaiting now cost } [.issued i now cost]
  | returns {issued : Nat} {cost : Cost} {answer : Reply}
      (awaits : inst.phase = .awaiting issued cost) :
      Moves i now inst { inst with phase := .recording (inst.recordOf issued now cost answer) }
        [.returned i now answer]
  | records {record : Record} {taken : Bool} (holds : inst.phase = .recording record) :
      Moves i now inst
        { inst with phase := .resting (Clock.wake now inst.profile.thinkPeriod) }
        [.recorded i (record.completedBy (Clock.reading now)) (.ok taken)]
  | crashes {record : Record} {fault : Fault} (holds : inst.phase = .recording record) :
      Moves i now inst inst.crash
        [.recorded i (record.completedBy (Clock.reading now)) (.error fault)]
  | abandons {issued : Nat} {cost : Cost} (awaits : inst.phase = .awaiting issued cost) :
      Moves i now inst { inst with phase := .stopped } [.quit i true]
  | ends {wake : Nat} (rests : inst.phase = .resting wake) :
      Moves i now inst { inst with phase := .stopped } [.quit i false]

namespace Instance

variable {i now : Nat} {inst next : Instance} {shown : List Event}

/-- An instance can issue a request once its timer has fired. -/
theorem canIssue_iff : inst.canIssue now ↔ ∃ wake, inst.phase.wake? = some wake ∧ wake ≤ now := by
  unfold canIssue
  cases inst.phase.wake? <;> simp

/-- The issue of a request is a move. -/
theorem moves_of_issue? {cost : Cost} (h : inst.issue? now = some (next, cost)) :
    inst.Moves i now next [.issued i now cost] := by
  unfold issue? at h
  by_cases hcan : inst.canIssue now
  · rw [if_pos hcan] at h
    obtain ⟨wake, waits, due⟩ := canIssue_iff.mp hcan
    rcases hdrawn : inst.profile.drawCost inst.words with ⟨drawn, words⟩
    rw [hdrawn] at h
    cases h
    exact .issues waits due hdrawn
  · rw [if_neg hcan] at h
    cases h

/-- The return of a call is a move. -/
theorem moves_of_receive? {answer : Reply} (h : inst.receive? now answer = some next) :
    inst.Moves i now next [.returned i now answer] := by
  unfold receive? at h
  split at h
  · rename_i issued cost awaits
    cases h
    exact .returns awaits
  · cases h

/-- Only a record that is held is handed over, and the think time begins. -/
theorem handOver?_eq_some {record : Record} (h : inst.handOver? now = some (next, record)) :
    inst.phase = .recording record ∧
      next = { inst with phase := .resting (Clock.wake now inst.profile.thinkPeriod) } := by
  unfold handOver? at h
  split at h
  · rename_i held holds
    cases h
    exact ⟨holds, rfl⟩
  · cases h

/-- An instance quits while it awaits a reply or rests. -/
theorem quit?_eq_some (h : inst.quit? = some next) :
    ((∃ issued cost, inst.phase = .awaiting issued cost) ∨ ∃ wake, inst.phase = .resting wake) ∧
      next = { inst with phase := .stopped } := by
  unfold quit? at h
  split at h
  · rename_i issued cost awaits
    cases h
    exact ⟨.inl ⟨issued, cost, awaits⟩, rfl⟩
  · rename_i wake rests
    cases h
    exact ⟨.inr ⟨wake, rests⟩, rfl⟩
  · cases h

/-- Giving up is a move. -/
theorem moves_of_quit? (h : inst.quit? = some next) :
    inst.Moves i now next [.quit i inst.phase.isAwaiting] := by
  obtain ⟨⟨issued, cost, awaits⟩ | ⟨wake, rests⟩, rfl⟩ := quit?_eq_some h
  · have hawaiting : inst.phase.isAwaiting = true := by rw [awaits]; rfl
    rw [hawaiting]
    exact .abandons awaits
  · have hawaiting : inst.phase.isAwaiting = false := by rw [rests]; rfl
    rw [hawaiting]
    exact .ends rests

/-- A move leaves alone whose instance it is. -/
theorem Moves.frame (h : inst.Moves i now next shown) :
    next.profile = inst.profile ∧ next.index = inst.index := by
  cases h <;> exact ⟨rfl, rfl⟩

/-- An instance that has ended does nothing more. -/
theorem Moves.eq_of_isEnded (h : inst.Moves i now next shown) (hended : inst.phase.isEnded) :
    next = inst ∧ shown = [] := by
  cases h with
  | stays => exact ⟨rfl, rfl⟩
  -- An instance that can be woken has not ended.
  | issues waits =>
    cases hphase : inst.phase with
    | stopped | crashed => rw [hphase] at waits; cases waits
    | _ => rw [hphase] at hended; cases hended
  | returns awaits | abandons awaits => rw [awaits] at hended; cases hended
  | records holds | crashes holds => rw [holds] at hended; cases hended
  | ends rests => rw [rests] at hended; cases hended

end Instance

/-- A monitor quits while it awaits a tick or nothing but the end. -/
theorem Monitor.quit?_eq_some {m next : Monitor} (h : m.quit? = some next) :
    ((∃ tick, m.phase = .waiting tick) ∨ m.phase = .parked) ∧
      next = { m with phase := .stopped } := by
  unfold quit? at h
  split at h
  · rename_i tick waits
    cases h
    exact ⟨.inl ⟨tick, waits⟩, rfl⟩
  · rename_i parked
    cases h
    exact ⟨.inr parked, rfl⟩
  · cases h

namespace Engine

variable {e e' : Engine} {a : Action} {shown : List Event}

/-- Replacing one instance moves that one and no other. -/
private theorem moves_setInstance {i j : Nat} {inst other next : Instance}
    (found : e.instances[j]? = some other) (at_i : e.instances[i]? = some inst)
    {event : Event} (about : event.instance? = some i)
    (move : inst.Moves i e.now next [event]) :
    ∃ after, (e.instances.set i next)[j]? = some after ∧
      other.Moves j e.now after (eventsOf j [event]) := by
  rw [eventsOf_singleton, about, List.getElem?_set]
  -- The event tells of the instance that is replaced; for any other one nothing happens.
  by_cases hij : i = j
  · subst hij
    rw [found, Option.some.injEq] at at_i
    subst at_i
    have hlt : i < e.instances.length := (List.getElem?_eq_some_iff.mp found).1
    refine ⟨next, by rw [if_pos rfl, if_pos hlt], ?_⟩
    rw [if_pos rfl]
    exact move
  · refine ⟨other, by rw [if_neg hij, found], ?_⟩
    rw [if_neg (by simpa using hij)]
    exact .stays

/-- Every step moves every instance, and time does not go back. -/
theorem Steps.moves (h : Steps e a e' shown) {j : Nat} {inst : Instance}
    (found : e.instances[j]? = some inst) :
    (∃ next, e'.instances[j]? = some next ∧ inst.Moves j e.now next (eventsOf j shown)) ∧
      e.now ≤ e'.now := by
  -- The steps of an instance are its moves. In all others it stays.
  cases h with
  | issue at_i turn =>
    exact ⟨moves_setInstance found at_i rfl (Instance.moves_of_issue? turn), Nat.le_refl _⟩
  | reply at_i turn =>
    exact ⟨moves_setInstance found at_i rfl (Instance.moves_of_receive? turn), Nat.le_refl _⟩
  | record at_i turn kept =>
    obtain ⟨holds, rfl⟩ := Instance.handOver?_eq_some turn
    exact ⟨moves_setInstance found at_i rfl (.records holds), Nat.le_refl _⟩
  | crash at_i turn kept =>
    obtain ⟨holds, -⟩ := Instance.handOver?_eq_some turn
    exact ⟨moves_setInstance found at_i rfl (.crashes holds), Nat.le_refl _⟩
  | quit told at_i turn =>
    exact ⟨moves_setInstance found at_i rfl (Instance.moves_of_quit? turn), Nat.le_refl _⟩
  | advance later range => exact ⟨⟨inst, found, .stays⟩, later⟩
  | _ => exact ⟨⟨inst, found, .stays⟩, Nat.le_refl _⟩

/-- Steps keep the number of instances. -/
theorem Steps.length_instances (h : Steps e a e' shown) :
    e'.instances.length = e.instances.length := by
  cases h <;> first | rfl | exact List.length_set

/-- Every instance that there is after a step was moved by it. -/
theorem Steps.moved (h : Steps e a e' shown) {j : Nat} {next : Instance}
    (found : e'.instances[j]? = some next) :
    ∃ inst, e.instances[j]? = some inst ∧ inst.Moves j e.now next (eventsOf j shown) := by
  have hlt : j < e.instances.length := by
    rw [← h.length_instances]
    exact (List.getElem?_eq_some_iff.mp found).1
  have hfound := List.getElem?_eq_getElem hlt
  obtain ⟨⟨after, hafter, move⟩, -⟩ := h.moves hfound
  rw [found, Option.some.injEq] at hafter
  subst hafter
  exact ⟨_, hfound, move⟩

/-- No event tells of an instance that there is not. -/
theorem Steps.eventsOf_eq_nil (h : Steps e a e' shown) {j : Nat}
    (missing : e.instances[j]? = none) : eventsOf j shown = [] := by
  have hne : ∀ {i : Nat} {inst : Instance}, e.instances[i]? = some inst → i ≠ j := by
    rintro i inst found rfl
    rw [missing] at found
    cases found
  cases h with
  | issue found | reply found | record found | crash found | quit _ found =>
    rw [eventsOf_singleton, if_neg]
    simpa [Event.instance?] using hne found
  | _ => rfl

/-- What holds of an instance at first, and is preserved by every move while time passes, holds of
    it after every run. -/
theorem run?_instance {motive : Instance → List Event → Nat → Prop} {as : List Action}
    (h : e.run? as = some (e', shown)) {i : Nat} {inst : Instance}
    (found : e.instances[i]? = some inst) (start : motive inst [] e.now)
    (step : ∀ {mid next : Instance} {told new : List Event} {now later : Nat},
      motive mid told now → mid.Moves i now next new → now ≤ later →
        motive next (told ++ new) later) :
    ∃ last, e'.instances[i]? = some last ∧ motive last (eventsOf i shown) e'.now := by
  refine run?_induction (motive := fun e told =>
    ∃ last, e.instances[i]? = some last ∧ motive last (eventsOf i told) e.now) h
    ⟨inst, found, start⟩ ?_
  rintro mid next a told new ⟨last, hlast, hholds⟩ hstep
  -- The events of the step come behind those of the run before.
  obtain ⟨⟨after, hafter, hmoves⟩, hlater⟩ := hstep.moves hlast
  rw [eventsOf_append]
  exact ⟨after, hafter, step hholds hmoves hlater⟩

/-- A run keeps the number of instances, their profiles and their numbers. -/
theorem run?_frame {as : List Action} (h : e.run? as = some (e', shown)) :
    e'.instances.map (fun i => (i.profile, i.index)) =
      e.instances.map fun i => (i.profile, i.index) := by
  refine run?_induction (motive := fun mid _ => mid.instances.map (fun i => (i.profile, i.index)) =
      e.instances.map fun i => (i.profile, i.index)) h rfl ?_
  intro mid next a told new hmid hstep
  rw [← hmid]
  -- Instances are compared place by place, as a step moves each of them.
  apply List.ext_getElem?
  intro j
  rw [List.getElem?_map, List.getElem?_map]
  cases hfound : mid.instances[j]? with
  | none =>
    have hlen : next.instances.length ≤ j := by
      rw [hstep.length_instances]
      exact List.getElem?_eq_none_iff.mp hfound
    rw [List.getElem?_eq_none hlen]
  | some inst =>
    obtain ⟨⟨after, hafter, hmoves⟩, -⟩ := hstep.moves hfound
    obtain ⟨hprofile, hindex⟩ := hmoves.frame
    rw [hafter, Option.map_some, Option.map_some, hprofile, hindex]

/-- No instance comes or goes during a run. -/
theorem run?_length_instances {as : List Action} (h : e.run? as = some (e', shown)) :
    e'.instances.length = e.instances.length := by
  have hlen := congrArg List.length (run?_frame h)
  rwa [List.length_map, List.length_map] at hlen

/-- Only instances that there are show events in a run. -/
theorem run?_eventsOf_eq_nil {as : List Action} (h : e.run? as = some (e', shown)) {j : Nat}
    (missing : e.instances.length ≤ j) : eventsOf j shown = [] := by
  have hall : e'.instances.length = e.instances.length ∧ eventsOf j shown = [] := by
    refine run?_induction (motive := fun mid told =>
      mid.instances.length = e.instances.length ∧ eventsOf j told = []) h ⟨rfl, rfl⟩ ?_
    rintro mid next a told new ⟨hlen, htold⟩ hstep
    refine ⟨hstep.length_instances.trans hlen, ?_⟩
    rw [eventsOf_append, htold, hstep.eventsOf_eq_nil, List.append_nil]
    rw [List.getElem?_eq_none_iff, hlen]
    exact missing
  exact hall.2

/-! ### The instances at the start -/

/-- Every profile of the instances at the start is one of those given. -/
theorem profile_mem_of_instancesFrom {seed : UInt64} {profiles : List Profile} {inst : Instance}
    (h : inst ∈ instancesFrom seed profiles) : inst.profile ∈ profiles := by
  induction profiles generalizing seed with
  | nil => cases h
  | cons p rest ih =>
    rw [instancesFrom, List.mem_append] at h
    rcases h with h | h
    · obtain ⟨index, -, rfl⟩ := List.mem_map.mp h
      exact List.mem_cons_self
    · exact List.mem_cons_of_mem _ (ih h)

/-- At the start no instance has begun. -/
theorem phase_of_instancesFrom {seed : UInt64} {profiles : List Profile} {inst : Instance}
    (h : inst ∈ instancesFrom seed profiles) : inst.phase = .fresh := by
  induction profiles generalizing seed with
  | nil => cases h
  | cons p rest ih =>
    rw [instancesFrom, List.mem_append] at h
    rcases h with h | h
    · obtain ⟨index, -, rfl⟩ := List.mem_map.mp h
      rfl
    · exact ih h

/-- What holds of an instance that has not begun, and is preserved by every move while time passes,
    holds of every instance after every run. -/
theorem run?_instance_of_start {motive : Instance → List Event → Nat → Prop}
    {config : EngineConfig} {profiles : List Profile} {as : List Action}
    (h : (start config profiles).run? as = some (e', shown)) {i : Nat} {inst : Instance}
    (found : e'.instances[i]? = some inst)
    (fresh : ∀ first : Instance, first.phase = .fresh → motive first [] 0)
    (step : ∀ {mid next : Instance} {told new : List Event} {now later : Nat},
      motive mid told now → mid.Moves i now next new → now ≤ later →
        motive next (told ++ new) later) :
    motive inst (eventsOf i shown) e'.now := by
  -- A run adds no instances, so this one was there at the start.
  have hlt : i < (start config profiles).instances.length := by
    rw [← run?_length_instances h]
    exact (List.getElem?_eq_some_iff.mp found).1
  obtain ⟨last, hlast, hholds⟩ := run?_instance h (List.getElem?_eq_getElem hlt)
    (fresh _ (phase_of_instancesFrom (List.getElem_mem hlt))) step
  rw [hlast, Option.some.injEq] at found
  rw [← found]
  exact hholds

end Engine

end ClosedLoop
