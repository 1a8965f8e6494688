import ClosedLoop.Proofs.Engine.Bookkeeping

namespace ClosedLoop

/-!
# The end of a run

* `Status.isOver`, `Status.isClean` — the ledger has been flushed; nothing was left running then;
* `Engine.Steps.flush_of_isOver` — only a flush brings a run there;
* `Engine.Steps.quiet`, `Engine.run?_quiet` — after a clean flush all instances and monitors have
  ended, and stay so;
* `Engine.Steps.afterwards` — all that can still happen then is that snapshots are passed on.
-/

/-- Has the ledger been flushed? -/
def Status.isOver : Status → Bool
  | .flushing _ _ _ => true
  | .finished _ _ => true
  | _ => false

/-- Was nothing left running when the ledger was flushed, if it was flushed? -/
def Status.isClean : Status → Bool
  | .flushing clean _ _ => clean
  | .finished clean _ => clean
  | .failed _ => false
  | _ => true

namespace Engine

variable {e e' : Engine} {a : Action} {new : List Event}

/-- A run that is clean was clean all along. -/
theorem Steps.isClean (h : Steps e a e' new) (hclean : e'.status.isClean) : e.status.isClean := by
  cases h with
  | stop runs => rw [runs]; rfl
  | flush drains | flushFails drains => rw [drains]; rfl
  | sendFlushed flushes | finish flushes => rw [flushes]; exact hclean
  | _ => exact hclean

/-! ### Quiet engines -/

/-- Once everything is quiet, all instances have ended. -/
theorem isEnded_of_isQuiet (hq : e.isQuiet) {i : Nat} {inst : Instance}
    (found : e.instances[i]? = some inst) : inst.phase.isEnded := by
  rw [isQuiet, Bool.and_eq_true] at hq
  exact List.all_eq_true.mp hq.1 inst (List.mem_of_getElem? found)

/-- Once everything is quiet, all monitors have stopped. -/
theorem isStopped_of_isQuiet (hq : e.isQuiet) {m : Nat} {monitor : Monitor}
    (found : e.monitors[m]? = some monitor) : monitor.phase = .stopped := by
  rw [isQuiet, Bool.and_eq_true] at hq
  have hstopped := List.all_eq_true.mp hq.2 monitor (List.mem_of_getElem? found)
  unfold Monitor.isStopped at hstopped
  split at hstopped
  · assumption
  · cases hstopped

/-- What can still happen in a quiet engine after the flush. -/
inductive Afterwards (e : Engine) : Engine → List Event → Prop where
  | receive {s : Snapshot} {rest : List Snapshot} (front : e.channel = s :: rest) :
      Afterwards e ({ e with channel := rest }.report s) [.reported s]
  | advance {target : Nat} (later : e.now ≤ target) : Afterwards e { e with now := target } []
  | sendFlushed {clean : Bool} {elapsed : Nat} {s : Snapshot} {left : List Snapshot}
      (flushes : e.status = .flushing clean elapsed (s :: left)) :
      Afterwards e { e.push s with status := .flushing clean elapsed left } []
  | finish {clean : Bool} {elapsed : Nat} (flushes : e.status = .flushing clean elapsed [])
      (drained : e.channel = []) :
      Afterwards e { e with status := .finished clean elapsed }
        [.finished (e.reportAt clean elapsed)]

/-- A quiet engine only passes snapshots on after the flush. -/
theorem Steps.afterwards (h : Steps e a e' new) (hq : e.isQuiet) (hover : e.status.isOver) :
    Afterwards e e' new := by
  -- An instance that has ended shows no event any more.
  have hinstance : ∀ {i : Nat} {inst next : Instance} {shown : List Event},
      e.instances[i]? = some inst → inst.Moves i e.now next shown → shown = [] :=
    fun found move => (move.eq_of_isEnded (isEnded_of_isQuiet hq found)).2
  cases h with
  | issue found turn => cases hinstance found (Instance.moves_of_issue? turn)
  | reply found turn => cases hinstance found (Instance.moves_of_receive? turn)
  | record found turn | crash found turn =>
    obtain ⟨holds, -⟩ := Instance.handOver?_eq_some turn
    have hended := isEnded_of_isQuiet hq found
    rw [holds] at hended
    cases hended
  | quit told found turn => cases hinstance found (Instance.moves_of_quit? turn)
  | cutNothing found due waits | cut found due waits | cutFails found due waits =>
    rw [isStopped_of_isQuiet hq found] at waits
    cases waits
  | send room found holds =>
    rw [isStopped_of_isQuiet hq found] at holds
    cases holds
  | leave told found turn =>
    rw [Monitor.quit?, isStopped_of_isQuiet hq found] at turn
    cases turn
  | receive front => exact .receive front
  | advance later range => exact .advance later
  | stop runs => rw [runs] at hover; cases hover
  | flush drains | flushFails drains => rw [drains] at hover; cases hover
  | sendFlushed flushes room => exact .sendFlushed flushes
  | finish flushes drained left => exact .finish flushes drained

/-- What is quiet stays quiet after the end. -/
theorem Afterwards.isQuiet (h : Afterwards e e' new) (hq : e.isQuiet) : e'.isQuiet := by
  cases h <;> exact hq

/-- Only a flush brings a run to its end, a clean one once everything has ended. -/
theorem Steps.flush_of_isOver (h : Steps e a e' new) (hearlier : ¬e.status.isOver)
    (hover : e'.status.isOver) :
    ∃ clean left, (clean = true → e.isQuiet) ∧ (e.ledger.flush e.reading).2 = .ok left ∧
      new = [.flushed left] ∧
        e' = { e with
          ledger := (e.ledger.flush e.reading).1
          status := .flushing clean e.now left } := by
  -- Only the flush gets from before the end to behind it.
  cases h with
  | @flush clean since left drains ripe kept =>
    refine ⟨clean, left, fun hclean => ?_, kept, rfl, rfl⟩
    subst hclean
    exact ripe
  | flushFails | stop => cases hover
  | sendFlushed flushes | finish flushes => rw [flushes] at hearlier; exact absurd rfl hearlier
  | _ => exact absurd hover hearlier

/-- After a clean flush everything has ended. -/
theorem Steps.quiet (h : Steps e a e' new) (hclean : e'.status.isClean)
    (hq : e.status.isOver → e.isQuiet) (hover : e'.status.isOver) : e'.isQuiet := by
  by_cases hearlier : e.status.isOver
  · exact (h.afterwards (hq hearlier) hearlier).isQuiet (hq hearlier)
  · obtain ⟨clean, left, hquiet, -, -, rfl⟩ := h.flush_of_isOver hearlier hover
    exact hquiet hclean

/-- Behind the end of a clean run everything is quiet. -/
theorem run?_quiet {config : EngineConfig} {profiles : List Profile} {as : List Action}
    {events : List Event} (h : (start config profiles).run? as = some (e, events))
    (hclean : e.status.isClean) (hover : e.status.isOver) : e.isQuiet := by
  have hall := run?_induction (motive := fun mid _ =>
    mid.status.isClean → mid.status.isOver → mid.isQuiet) h (fun _ hover => by cases hover)
    fun hmid hstep hclean => hstep.quiet hclean (hmid (hstep.isClean hclean))
  exact hall hclean hover

/-! ### Frames -/

/-- Steps keep the clients of the monitors. -/
theorem Steps.monitors_frame (h : Steps e a e' new) :
    e'.monitors.map Monitor.client = e.monitors.map Monitor.client := by
  -- Where a monitor is replaced, the next one has the same client.
  have hset : ∀ {m : Nat} {monitor next : Monitor}, e.monitors[m]? = some monitor →
      next.client = monitor.client →
      (e.monitors.set m next).map Monitor.client = e.monitors.map Monitor.client := by
    intro m monitor next found hclient
    rw [List.map_set, hclient]
    obtain ⟨hlt, rfl⟩ := List.getElem?_eq_some_iff.mp found
    rw [← List.map_set, List.set_getElem_self]
  cases h with
  | cutNothing found | cut found | cutFails found | send room found => exact hset found rfl
  | leave told found turn =>
    obtain ⟨-, rfl⟩ := Monitor.quit?_eq_some turn
    exact hset found rfl
  | _ => rfl

/-- No monitor changes its client during a run. -/
theorem run?_monitors {as : List Action} {events : List Event}
    (h : e.run? as = some (e', events)) :
    e'.monitors.map Monitor.client = e.monitors.map Monitor.client :=
  run?_induction (motive := fun mid _ =>
    mid.monitors.map Monitor.client = e.monitors.map Monitor.client) h rfl
    fun hmid hstep => hstep.monitors_frame.trans hmid

/-- After every run the clients of the monitors are those of the profiles. -/
theorem run?_monitors_of_start {config : EngineConfig} {profiles : List Profile}
    {as : List Action} {events : List Event}
    (h : (start config profiles).run? as = some (e, events)) :
    e.monitors.map Monitor.client = profiles.map Profile.id := by
  rw [run?_monitors h, start, List.map_map]
  rfl

end Engine

end ClosedLoop
