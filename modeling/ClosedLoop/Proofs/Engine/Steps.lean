import ClosedLoop.Engine.Basic
import Mathlib.Data.Option.Basic

namespace ClosedLoop

/-!
# What an action does

* `Engine.Steps` — one case for everything that an action can do, with what it depends on and shows;
* `Engine.steps_of_step?`, `Engine.step?_of_steps` — the possible actions are these cases;
* `Engine.run?_append`, `Engine.run?_split` — runs can be joined, and cut at each of their events;
* `Engine.Throughout`, `Engine.run?_induction_throughout` — runs in which every action suits the
  engine, and what every such step preserves;
* `Engine.run?_induction` — what every step preserves holds after every run.
-/

namespace Engine

/-- What an action can do to an engine, with the events that it shows. -/
inductive Steps (e : Engine) : Action → Engine → List Event → Prop where
  | issue {i : Nat} {inst next : Instance} {cost : Cost} (found : e.instances[i]? = some inst)
      (turn : inst.issue? e.now = some (next, cost)) :
      Steps e (.issue i) (e.setInstance i next) [.issued i e.now cost]
  | reply {i : Nat} {answer : Reply} {inst next : Instance} (found : e.instances[i]? = some inst)
      (turn : inst.receive? e.now answer = some next) :
      Steps e (.reply i answer) (e.setInstance i next) [.returned i e.now answer]
  | record {i : Nat} {inst next : Instance} {record : Record} {taken : Bool}
      (found : e.instances[i]? = some inst) (turn : inst.handOver? e.now = some (next, record))
      (kept : (e.ledger.record (record.completedBy e.reading)).2 = .ok taken) :
      Steps e (.record i)
        ({ e with ledger := (e.ledger.record (record.completedBy e.reading)).1 }.setInstance i next)
        [.recorded i (record.completedBy e.reading) (.ok taken)]
  | crash {i : Nat} {inst next : Instance} {record : Record} {fault : Fault}
      (found : e.instances[i]? = some inst) (turn : inst.handOver? e.now = some (next, record))
      (kept : (e.ledger.record (record.completedBy e.reading)).2 = .error fault) :
      Steps e (.record i)
        ({ e with ledger := (e.ledger.record (record.completedBy e.reading)).1 }.setInstance i
          inst.crash)
        [.recorded i (record.completedBy e.reading) (.error fault)]
  | quit {i : Nat} {inst next : Instance} (told : e.isRunning = false)
      (found : e.instances[i]? = some inst) (turn : inst.quit? = some next) :
      Steps e (.quit i) (e.setInstance i next) [.quit i inst.phase.isAwaiting]
  | cutNothing {m tick : Nat} {monitor : Monitor} (found : e.monitors[m]? = some monitor)
      (due : monitor.isDue e.now) (waits : monitor.phase = .waiting tick)
      (kept : (e.ledger.take e.reading monitor.client).2 = .ok none) :
      Steps e (.cut m)
        ({ e with ledger := (e.ledger.take e.reading monitor.client).1 }.setMonitor m
          { monitor with phase := .waiting (tick + 1) })
        [.ticked m tick none]
  | cut {m tick : Nat} {monitor : Monitor} {s : Snapshot} (found : e.monitors[m]? = some monitor)
      (due : monitor.isDue e.now) (waits : monitor.phase = .waiting tick)
      (kept : (e.ledger.take e.reading monitor.client).2 = .ok (some s)) :
      Steps e (.cut m)
        ({ e with ledger := (e.ledger.take e.reading monitor.client).1 }.setMonitor m
          { monitor with phase := .sending (tick + 1) s })
        [.ticked m tick (some s)]
  | cutFails {m tick : Nat} {monitor : Monitor} {fault : Fault}
      (found : e.monitors[m]? = some monitor) (due : monitor.isDue e.now)
      (waits : monitor.phase = .waiting tick)
      (kept : (e.ledger.take e.reading monitor.client).2 = .error fault) :
      Steps e (.cut m)
        ({ e with ledger := (e.ledger.take e.reading monitor.client).1 }.setMonitor m
          { monitor with phase := .stopped })
        [.ticked m tick none]
  | send {m tick : Nat} {monitor : Monitor} {s : Snapshot} (room : e.hasRoom)
      (found : e.monitors[m]? = some monitor) (holds : monitor.phase = .sending tick s) :
      Steps e (.send m) ((e.push s).setMonitor m { monitor with phase := .waiting tick }) []
  | leave {m : Nat} {monitor next : Monitor} (told : e.isRunning = false)
      (found : e.monitors[m]? = some monitor) (turn : monitor.quit? = some next) :
      Steps e (.leave m) (e.setMonitor m next) []
  | receive {s : Snapshot} {rest : List Snapshot} (front : e.channel = s :: rest) :
      Steps e .receive ({ e with channel := rest }.report s) [.reported s]
  | advance {target : Nat} (later : e.now ≤ target) (shown : target ≤ Clock.range) :
      Steps e (.advance target) { e with now := target } []
  | stop {flushes : Bool} (runs : e.status = .running) :
      Steps e (.stop flushes) { e with status := .draining flushes e.now } []
  | flush {clean : Bool} {since : Nat} {left : List Snapshot}
      (drains : e.status = .draining true since)
      (ripe : (if clean then e.isQuiet else e.isGraceOver since) = true)
      (kept : (e.ledger.flush e.reading).2 = .ok left) :
      Steps e (.flush clean)
        { e with
          ledger := (e.ledger.flush e.reading).1
          status := .flushing clean e.now left }
        [.flushed left]
  | flushFails {clean : Bool} {since : Nat} {fault : Fault}
      (drains : e.status = .draining true since)
      (ripe : (if clean then e.isQuiet else e.isGraceOver since) = true)
      (kept : (e.ledger.flush e.reading).2 = .error fault) :
      Steps e (.flush clean)
        { e with
          ledger := (e.ledger.flush e.reading).1
          status := .failed fault }
        []
  | sendFlushed {clean : Bool} {elapsed : Nat} {s : Snapshot} {left : List Snapshot}
      (flushes : e.status = .flushing clean elapsed (s :: left)) (room : e.hasRoom) :
      Steps e .sendFlushed { e.push s with status := .flushing clean elapsed left } []
  | finish {clean : Bool} {elapsed : Nat} (flushes : e.status = .flushing clean elapsed [])
      (drained : e.channel = []) (left : e.monitors.all (·.isStopped)) :
      Steps e .finish { e with status := .finished clean elapsed }
        [.finished (e.reportAt clean elapsed)]

variable {e e' : Engine} {shown : List Event}

/-! ### One case per action -/

/-- Issuing a request is the first of the cases. -/
private theorem steps_issue {i : Nat} (h : e.issue? i = some (e', shown)) :
    Steps e (.issue i) e' shown := by
  simp only [issue?, Option.bind_eq_bind, Option.bind_eq_some_iff, Option.pure_def,
    Option.some.injEq, Prod.mk.injEq] at h
  obtain ⟨inst, found, ⟨next, cost⟩, turn, rfl, rfl⟩ := h
  exact .issue found turn

/-- A reply is the second one. -/
private theorem steps_reply {i : Nat} {answer : Reply} (h : e.reply? i answer = some (e', shown)) :
    Steps e (.reply i answer) e' shown := by
  simp only [reply?, Option.bind_eq_bind, Option.bind_eq_some_iff, Option.pure_def,
    Option.some.injEq, Prod.mk.injEq] at h
  obtain ⟨inst, found, next, turn, rfl, rfl⟩ := h
  exact .reply found turn

/-- Handing over a record is one of two cases, depending on the ledger. -/
private theorem steps_record {i : Nat} (h : e.record? i = some (e', shown)) :
    Steps e (.record i) e' shown := by
  simp only [record?, Option.bind_eq_bind, Option.bind_eq_some_iff, Option.pure_def,
    Option.some.injEq, Prod.mk.injEq] at h
  obtain ⟨inst, found, ⟨next, record⟩, turn, rfl, rfl⟩ := h
  -- The answer of the ledger tells whether the instance goes on or ends with a fault;
  -- `recordCompleted` is `record` with the completion replaced, so `kept` is about both.
  cases kept : (e.ledger.record (record.completedBy e.reading)).2 with
  | ok taken =>
    have hkept : (e.ledger.recordCompleted e.reading record).2 = .ok taken := kept
    simp only [hkept]
    exact .record found turn kept
  | error fault =>
    have hkept : (e.ledger.recordCompleted e.reading record).2 = .error fault := kept
    simp only [hkept]
    exact .crash found turn kept

/-- The end of an instance is one case. -/
private theorem steps_quit {i : Nat} (h : e.quit? i = some (e', shown)) :
    Steps e (.quit i) e' shown := by
  simp only [quit?, Option.bind_eq_bind, Option.bind_eq_some_iff, Option.guard_eq_some',
    Option.pure_def, Option.some.injEq, Prod.mk.injEq] at h
  obtain ⟨-, told, inst, found, next, turn, rfl, rfl⟩ := h
  exact .quit (by simpa using told) found turn

/-- A cut is one of three cases, depending on the ledger. -/
private theorem steps_cut {m : Nat} (h : e.cut? m = some (e', shown)) :
    Steps e (.cut m) e' shown := by
  simp only [cut?, Option.bind_eq_bind, Option.bind_eq_some_iff, Option.guard_eq_some'] at h
  obtain ⟨monitor, found, -, due, h⟩ := h
  -- Only a waiting monitor cuts; the answer of the ledger tells how it goes on.
  cases waits : monitor.phase with
  | waiting tick =>
    rw [waits] at h
    simp only [Option.pure_def, Option.some.injEq, Prod.mk.injEq] at h
    obtain ⟨rfl, rfl⟩ := h
    cases kept : (e.ledger.take e.reading monitor.client).2 with
    | error fault => exact .cutFails found due waits kept
    | ok taken =>
      cases taken with
      | none => exact .cutNothing found due waits kept
      | some s => exact .cut found due waits kept
  | sending tick s => rw [waits] at h; cases h
  | parked => rw [waits] at h; cases h
  | stopped => rw [waits] at h; cases h

/-- Sending a snapshot is one case. -/
private theorem steps_send {m : Nat} (h : e.send? m = some (e', shown)) :
    Steps e (.send m) e' shown := by
  simp only [send?, Option.bind_eq_bind, Option.bind_eq_some_iff, Option.guard_eq_some'] at h
  obtain ⟨-, room, monitor, found, h⟩ := h
  cases holds : monitor.phase with
  | sending tick s =>
    rw [holds] at h
    cases h
    exact .send room found holds
  | waiting tick => rw [holds] at h; cases h
  | parked => rw [holds] at h; cases h
  | stopped => rw [holds] at h; cases h

/-- The end of a monitor is one case. -/
private theorem steps_leave {m : Nat} (h : e.leave? m = some (e', shown)) :
    Steps e (.leave m) e' shown := by
  simp only [leave?, Option.bind_eq_bind, Option.bind_eq_some_iff, Option.guard_eq_some',
    Option.pure_def, Option.some.injEq, Prod.mk.injEq] at h
  obtain ⟨-, told, monitor, found, next, turn, rfl, rfl⟩ := h
  exact .leave (by simpa using told) found turn

/-- Receiving a snapshot is one case. -/
private theorem steps_receive (h : e.receive? = some (e', shown)) : Steps e .receive e' shown := by
  unfold receive? at h
  split at h
  · rename_i s rest front
    cases h
    exact .receive front
  · cases h

/-- The passing of time is one case. -/
private theorem steps_advance {target : Nat} (h : e.advance? target = some (e', shown)) :
    Steps e (.advance target) e' shown := by
  unfold advance? at h
  split at h
  · rename_i hbounds
    cases h
    simp only [Bool.and_eq_true, decide_eq_true_eq] at hbounds
    exact .advance hbounds.1 hbounds.2
  · cases h

/-- Telling the run to end is one case. -/
private theorem steps_stop {flushes : Bool} (h : e.stop? flushes = some (e', shown)) :
    Steps e (.stop flushes) e' shown := by
  unfold stop? at h
  split at h
  · rename_i hruns
    cases h
    refine .stop ?_
    unfold isRunning at hruns
    split at hruns
    · assumption
    · cases hruns
  · cases h

/-- A flush is one of two cases, depending on the ledger. -/
private theorem steps_flush {clean : Bool} (h : e.flush? clean = some (e', shown)) :
    Steps e (.flush clean) e' shown := by
  unfold flush? at h
  split at h
  · rename_i since drains
    -- `ripe` stays one condition, since what it asks depends on `clean`.
    by_cases ripe : (if clean then e.isQuiet else e.isGraceOver since) = true
    · rw [if_pos ripe] at h
      cases kept : (e.ledger.flush e.reading).2 with
      | ok left =>
        simp only [kept, Option.some.injEq, Prod.mk.injEq] at h
        obtain ⟨rfl, rfl⟩ := h
        exact .flush drains ripe kept
      | error fault =>
        simp only [kept, Option.some.injEq, Prod.mk.injEq] at h
        obtain ⟨rfl, rfl⟩ := h
        exact .flushFails drains ripe kept
    · rw [if_neg ripe] at h
      cases h
  · cases h

/-- Sending a flushed snapshot is one case. -/
private theorem steps_sendFlushed (h : e.sendFlushed? = some (e', shown)) :
    Steps e .sendFlushed e' shown := by
  unfold sendFlushed? at h
  split at h
  · rename_i flushes
    split at h
    · rename_i room
      cases h
      exact .sendFlushed flushes room
    · cases h
  · cases h

/-- Finishing the run is the last case. -/
private theorem steps_finish (h : e.finish? = some (e', shown)) : Steps e .finish e' shown := by
  unfold finish? at h
  split at h
  · rename_i flushes drained
    split at h
    · rename_i left
      cases h
      exact .finish flushes drained left
    · cases h
  · cases h

/-- Every possible action does one of these things. -/
theorem steps_of_step? {a : Action} (h : e.step? a = some (e', shown)) : Steps e a e' shown := by
  cases a with
  | issue i => exact steps_issue h
  | reply i answer => exact steps_reply h
  | record i => exact steps_record h
  | quit i => exact steps_quit h
  | cut m => exact steps_cut h
  | send m => exact steps_send h
  | leave m => exact steps_leave h
  | receive => exact steps_receive h
  | advance target => exact steps_advance h
  | stop flushes => exact steps_stop h
  | flush clean => exact steps_flush h
  | sendFlushed => exact steps_sendFlushed h
  | finish => exact steps_finish h

/-- Each case of a step is a possible action. -/
theorem step?_of_steps {a : Action} (h : Steps e a e' shown) : e.step? a = some (e', shown) := by
  cases h with
  | issue found turn => simp [step?, issue?, found, turn]
  | reply found turn => simp [step?, reply?, found, turn]
  | record found turn kept | crash found turn kept =>
    simp [step?, record?, found, turn, Ledger.recordCompleted, kept]
  | quit told found turn => simp [step?, quit?, guard, told, found, turn]
  | cutNothing found due waits kept | cut found due waits kept | cutFails found due waits kept =>
    simp [step?, cut?, guard, found, due, waits, kept]
  | send room found holds => simp [step?, send?, guard, room, found, holds]
  | leave told found turn => simp [step?, leave?, guard, told, found, turn]
  | receive front => simp [step?, receive?, front]
  | advance later range => simp [step?, advance?, later, range]
  | stop runs => simp [step?, stop?, isRunning, runs]
  | flush drains ripe kept | flushFails drains ripe kept => simp [step?, flush?, drains, ripe, kept]
  | sendFlushed flushes room => simp [step?, sendFlushed?, flushes, room]
  | finish flushes drained left => simp [step?, finish?, flushes, drained, left]

/-! ### Runs -/

/-- An action shows one event at most. -/
theorem Steps.shown_nil_or_singleton {a : Action} (h : Steps e a e' shown) :
    shown = [] ∨ ∃ event, shown = [event] := by
  cases h <;> simp

/-- Time does not go back. -/
theorem Steps.now_le {a : Action} (h : Steps e a e' shown) : e.now ≤ e'.now := by
  cases h with
  | advance later range => exact later
  | _ => exact Nat.le_refl _

/-- A run goes on from where its first action leads to. -/
theorem run?_cons_iff {a : Action} {rest : List Action} :
    e.run? (a :: rest) = some (e', shown) ↔
      ∃ mid first later, e.step? a = some (mid, first) ∧ mid.run? rest = some (e', later) ∧
        shown = first ++ later := by
  simp only [run?, Option.bind_eq_bind, Option.bind_eq_some_iff, Option.pure_def,
    Option.some.injEq, Prod.mk.injEq]
  constructor
  · rintro ⟨⟨mid, first⟩, hstep, ⟨last, later⟩, hrest, rfl, rfl⟩
    exact ⟨mid, first, later, hstep, hrest, rfl⟩
  · rintro ⟨mid, first, later, hstep, hrest, rfl⟩
    exact ⟨(mid, first), hstep, (e', later), hrest, rfl, rfl⟩

/-- Two runs, one after the other, are a run. -/
theorem run?_append {as bs : List Action} {mid : Engine} {later : List Event}
    (h : e.run? as = some (mid, shown)) (hlater : mid.run? bs = some (e', later)) :
    e.run? (as ++ bs) = some (e', shown ++ later) := by
  induction as generalizing e shown with
  | nil => cases h; exact hlater
  | cons a rest ih =>
    obtain ⟨next, first, others, hstep, hrest, rfl⟩ := run?_cons_iff.mp h
    rw [List.cons_append, run?_cons_iff]
    exact ⟨next, first, others ++ later, hstep, ih hrest, List.append_assoc _ _ _⟩

/-- A run can be cut at each of its events. -/
theorem run?_split {as : List Action} {before after : List Event} {event : Event}
    (h : e.run? as = some (e', before ++ event :: after)) :
    ∃ (as₁ as₂ : List Action) (a : Action) (mid next : Engine), as = as₁ ++ a :: as₂ ∧
      e.run? as₁ = some (mid, before) ∧ Steps mid a next [event] ∧
      next.run? as₂ = some (e', after) := by
  induction as generalizing e before with
  | nil =>
    simp only [run?, Option.some.injEq, Prod.mk.injEq] at h
    exact absurd h.2 (by simp)
  | cons a rest ih =>
    obtain ⟨next, first, later, hstep, hrest, hshown⟩ := run?_cons_iff.mp h
    -- The first action shows at most one event, so the event in question is not split.
    have hsteps := steps_of_step? hstep
    rcases hsteps.shown_nil_or_singleton with rfl | ⟨x, rfl⟩
    · -- The first action shows nothing, so the event comes later.
      rw [List.nil_append] at hshown
      rw [← hshown] at hrest
      obtain ⟨as₁, as₂, b, mid, last, rfl, hbefore, hevent, hafter⟩ := ih hrest
      refine ⟨a :: as₁, as₂, b, mid, last, rfl, ?_, hevent, hafter⟩
      exact run?_cons_iff.mpr ⟨next, [], before, hstep, hbefore, rfl⟩
    · -- The first action shows an event, which is the one in question or comes before it.
      cases before with
      | nil =>
        obtain ⟨rfl, rfl⟩ := List.cons.inj hshown
        exact ⟨[], rest, a, e, next, rfl, rfl, hsteps, hrest⟩
      | cons y before =>
        obtain ⟨rfl, rfl⟩ := List.cons.inj hshown
        obtain ⟨as₁, as₂, b, mid, last, rfl, hbefore, hevent, hafter⟩ := ih hrest
        refine ⟨a :: as₁, as₂, b, mid, last, rfl, ?_, hevent, hafter⟩
        exact run?_cons_iff.mpr ⟨next, [y], before, hstep, hbefore, rfl⟩

/-- A run of one action. -/
theorem run?_one {a : Action} (h : e.step? a = some (e', shown)) : e.run? [a] = some (e', shown) :=
  run?_cons_iff.mpr ⟨e', shown, [], h, rfl, (List.append_nil _).symm⟩

/-! ### Runs whose actions suit -/

/-- Every action of a run suits the engine at its time. -/
def Throughout (suits : Engine → Action → Prop) (e : Engine) : List Action → Prop
  | [] => True
  | a :: rest => suits e a ∧ ∀ next shown, e.step? a = some (next, shown) →
      next.Throughout suits rest

section Throughout

variable {suits : Engine → Action → Prop} {mid : Engine} {as bs : List Action}

/-- A run of one action is suitable if the action is. -/
theorem throughout_one {a : Action} (h : suits e a) : e.Throughout suits [a] :=
  ⟨h, fun _ _ _ => trivial⟩

/-- A run is suitable throughout if both its parts are. -/
theorem throughout_append (hrun : e.run? as = some (mid, shown)) :
    e.Throughout suits (as ++ bs) ↔ e.Throughout suits as ∧ mid.Throughout suits bs := by
  induction as generalizing e shown with
  | nil =>
    cases hrun
    simp [Throughout]
  | cons a rest ih =>
    obtain ⟨next, first, later, hstep, hrest, -⟩ := run?_cons_iff.mp hrun
    simp only [List.cons_append, Throughout, hstep, Option.some.injEq, Prod.mk.injEq, and_imp,
      forall_eq', forall_apply_eq_imp_iff, and_assoc, ih hrest]

/-- What is suitable in one way throughout is so in a wider way. -/
theorem Throughout.mono {suits' : Engine → Action → Prop}
    (hmono : ∀ e a, suits e a → suits' e a) (h : e.Throughout suits as) :
    e.Throughout suits' as := by
  induction as generalizing e with
  | nil => trivial
  | cons a rest ih => exact ⟨hmono e a h.1, fun next shown hstep => ih (h.2 next shown hstep)⟩

/-- Every action suits if nothing is asked of it. -/
theorem throughout_of_forall (hall : ∀ e a, suits e a) : e.Throughout suits as := by
  induction as generalizing e with
  | nil => trivial
  | cons a rest ih => exact ⟨hall e a, fun _ _ _ => ih⟩

/-- What holds at first, and is preserved by every step that suits, holds after every run whose
    actions suit; the run before a step is one of these. -/
theorem run?_induction_throughout {motive : Engine → List Event → Prop}
    (h : e.run? as = some (e', shown)) (hsuits : e.Throughout suits as) (start : motive e [])
    (step : ∀ {before : List Action} {mid next : Engine} {a : Action} {told new : List Event},
      e.run? before = some (mid, told) → e.Throughout suits before → motive mid told →
        Steps mid a next new → suits mid a → motive next (told ++ new)) :
    motive e' shown := by
  -- Actions are read from the front, so the induction carries along the run before them.
  have hall : ∀ (as before : List Action) (mid : Engine) (told later : List Event),
      e.run? before = some (mid, told) → e.Throughout suits before →
        mid.run? as = some (e', later) → mid.Throughout suits as → motive mid told →
          motive e' (told ++ later) := by
    intro as
    induction as with
    | nil =>
      intro before mid told later hbefore hearlier hrun _ hmid
      cases hrun
      rw [List.append_nil]
      exact hmid
    | cons a rest ih =>
      intro before mid told later hbefore hearlier hrun hrest hmid
      obtain ⟨next, first, others, hstep, hlater, rfl⟩ := run?_cons_iff.mp hrun
      rw [← List.append_assoc]
      exact ih (before ++ [a]) next (told ++ first) others (run?_append hbefore (run?_one hstep))
        ((throughout_append hbefore).mpr ⟨hearlier, throughout_one hrest.1⟩) hlater
        (hrest.2 next first hstep) (step hbefore hearlier hmid (steps_of_step? hstep) hrest.1)
  exact hall as [] e [] shown rfl trivial h hsuits start

end Throughout

/-- What holds at first, and is preserved by every step that can follow a run, holds after every
    run. -/
theorem run?_induction_along {motive : Engine → List Event → Prop} {as : List Action}
    (h : e.run? as = some (e', shown)) (start : motive e [])
    (step : ∀ {before : List Action} {mid next : Engine} {a : Action} {told new : List Event},
      e.run? before = some (mid, told) → motive mid told → Steps mid a next new →
        motive next (told ++ new)) :
    motive e' shown :=
  run?_induction_throughout h (throughout_of_forall fun _ _ => trivial) start
    fun hbefore _ hmid hstep _ => step hbefore hmid hstep

/-- What holds at first, and is preserved by every step with the events it shows, holds after every
    run. -/
theorem run?_induction {motive : Engine → List Event → Prop} {as : List Action}
    (h : e.run? as = some (e', shown)) (start : motive e [])
    (step : ∀ {mid next : Engine} {a : Action} {told new : List Event},
      motive mid told → Steps mid a next new → motive next (told ++ new)) :
    motive e' shown :=
  run?_induction_along h start fun _ hmid hstep => step hmid hstep

end Engine

end ClosedLoop
