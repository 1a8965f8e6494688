import ClosedLoop.Proofs.Engine.Ending
import ClosedLoop.Proofs.Profile.Validation

namespace ClosedLoop

/-!
# The delivery of snapshots

A snapshot passes from its monitor, or from the flush, through the channel to the board. Whatever
is under way keeps, for each client, the order in which it was cut.

* `Engine.underWay` — everything that was reported or will be;
* `Engine.Passes` — what makes the engine pass snapshots on;
* `Engine.Steps.order`, `Engine.run?_order` — for every client, what is under way is what was cut,
  in the order of the cuts.
-/

/-- The snapshot that a monitor has cut and not yet sent. -/
def Monitor.held (m : Monitor) : List Snapshot :=
  match m.phase with
  | .sending _ s => [s]
  | _ => []

/-- The flushed snapshots that are still to be sent. -/
def Status.left : Status → List Snapshot
  | .flushing _ _ left => left
  | _ => []

/-- All snapshots, from those reported to those not yet sent. -/
def Engine.underWay (e : Engine) : List Snapshot :=
  e.board ++ e.channel ++ e.monitors.flatMap Monitor.held ++ e.status.left

/-! ### What monitors hold -/

/-- Monitors hold snapshots of their own clients only. -/
def Owned (ms : List Monitor) : Prop := ∀ m ∈ ms, ∀ s ∈ m.held, s.client = m.client

section Held

variable {ms : List Monitor} {i : Nat} {m next : Monitor}

/-- Of the snapshots that are held, those of a client are held by its monitor. -/
theorem held_of_client (hnodup : (ms.map Monitor.client).Nodup) (howned : Owned ms) (hm : m ∈ ms) :
    (ms.flatMap Monitor.held).filter (·.client = m.client) = m.held := by
  induction ms with
  | nil => cases hm
  | cons x rest ih =>
    rw [List.map_cons, List.nodup_cons] at hnodup
    obtain ⟨hx, hrest⟩ := hnodup
    have howned' : Owned rest := fun y hy => howned y (List.mem_cons_of_mem _ hy)
    rw [List.flatMap_cons, List.filter_append]
    -- The monitor in question comes first or later; what others hold is not of its client.
    rcases List.mem_cons.mp hm with rfl | hmem
    · have hothers : (rest.flatMap Monitor.held).filter (·.client = m.client) = [] := by
        refine List.filter_eq_nil_iff.mpr fun s hs hclient => ?_
        obtain ⟨y, hy, hsy⟩ := List.mem_flatMap.mp hs
        refine hx (List.mem_map.mpr ⟨y, hy, ?_⟩)
        rw [← howned' y hy s hsy, of_decide_eq_true hclient]
      have hown : m.held.filter (·.client = m.client) = m.held :=
        List.filter_eq_self.mpr fun s hs => decide_eq_true (howned m List.mem_cons_self s hs)
      rw [hothers, hown, List.append_nil]
    · have hother : x.held.filter (·.client = m.client) = [] := by
        refine List.filter_eq_nil_iff.mpr fun s hs hclient => ?_
        refine hx (List.mem_map.mpr ⟨m, hmem, ?_⟩)
        rw [← howned x List.mem_cons_self s hs, of_decide_eq_true hclient]
      rw [hother, List.nil_append, ih hrest howned' hmem]

/-- Monitors hold snapshots of their own clients after a change, too. -/
theorem Owned.set (howned : Owned ms) (hnext : ∀ s ∈ next.held, s.client = next.client) :
    Owned (ms.set i next) := by
  intro x hx
  rcases List.mem_or_eq_of_mem_set hx with hmem | rfl
  · exact howned x hmem
  · exact hnext

/-- Replacing a monitor changes what is held of its client only. -/
theorem held_set (hnodup : (ms.map Monitor.client).Nodup) (howned : Owned ms)
    (found : ms[i]? = some m) (next : Monitor) (hclient : next.client = m.client)
    (hnext : ∀ s ∈ next.held, s.client = next.client) (c : ClientId) :
    ((ms.set i next).flatMap Monitor.held).filter (·.client = c) =
      if c = m.client then next.held else (ms.flatMap Monitor.held).filter (·.client = c) := by
  have hlt : i < ms.length := (List.getElem?_eq_some_iff.mp found).1
  obtain rfl : ms[i] = m := (List.getElem?_eq_some_iff.mp found).2
  by_cases hc : c = ms[i].client
  · have hframe : (ms.set i next).map Monitor.client = ms.map Monitor.client := by
      rw [List.map_set, hclient, ← List.map_set, List.set_getElem_self]
    rw [if_pos hc, hc, ← hclient]
    exact held_of_client (hframe ▸ hnodup) (howned.set hnext) (List.mem_set hlt next)
  · -- For another client it does not matter what the replaced monitor holds.
    have hnone : ∀ x : Monitor, (∀ s ∈ x.held, s.client = x.client) → x.client = ms[i].client →
        x.held.filter (·.client = c) = [] := by
      intro x hx hxc
      refine List.filter_eq_nil_iff.mpr fun s hs hsc => hc ?_
      rw [← hxc, ← hx s hs, of_decide_eq_true hsc]
    rw [if_neg hc, List.filter_flatMap, List.filter_flatMap, List.flatMap_def, List.flatMap_def,
      List.map_set, hnone next hnext hclient,
      ← hnone ms[i] (howned _ (List.getElem_mem hlt)) rfl, ← List.map_set, List.set_getElem_self]

/-- Monitors that have stopped hold nothing. -/
theorem held_eq_nil (hstopped : ∀ m ∈ ms, m.phase = .stopped) : ms.flatMap Monitor.held = [] := by
  refine List.flatMap_eq_nil_iff.mpr fun m hm => ?_
  rw [Monitor.held, hstopped m hm]

end Held

/-! ### Underway -/

/-- Handing over a record shows no snapshot. -/
theorem Journal.shown_ofRecord (r : Record) (result : Except Fault Bool) :
    (Journal.ofRecord r result).shown = [] := by
  rcases result with fault | (_ | _) <;> rfl

/-- A snapshot that is taken belongs to the client it is taken of. -/
theorem Ledger.client_of_take {l : Ledger} {now : Span} {c : ClientId} {s : Snapshot}
    (h : (l.take now c).2 = .ok (some s)) : s.client = c := by
  unfold Ledger.take at h
  cases hfound : l.account? c with
  | none => rw [hfound] at h; cases h
  | some a =>
    rw [hfound] at h
    have hshown : s ∈ a.shownBy c now := by
      rw [Account.shownBy_ok h]
      rfl
    exact Account.client_of_shownBy hshown

/-- A monitor that waits for its tick holds nothing. -/
theorem Monitor.held_waiting {m : Monitor} {tick : Nat} (h : m.phase = .waiting tick) :
    m.held = [] := by
  rw [held, h]

/-- A monitor that sends holds one snapshot. -/
theorem Monitor.held_sending {m : Monitor} {tick : Nat} {s : Snapshot}
    (h : m.phase = .sending tick s) : m.held = [s] := by
  rw [held, h]

/-- A monitor that ends leaves nothing behind. -/
theorem Monitor.held_of_quit? {m next : Monitor} (h : m.quit? = some next) :
    m.held = [] ∧ next.held = [] ∧ next.client = m.client := by
  obtain ⟨⟨tick, waits⟩ | parked, rfl⟩ := quit?_eq_some h
  · exact ⟨held_waiting waits, rfl, rfl⟩
  · exact ⟨by rw [held, parked], rfl, rfl⟩

namespace Engine

variable {e e' : Engine} {a : Action} {told new : List Event}

/-- The engine passes snapshots on: the books are right, every client has one monitor, which holds
    its snapshots only, and everything has ended once the ledger was flushed. -/
structure Passes (e : Engine) (told : List Event) : Prop where
  books : e.Books told
  clients : (e.monitors.map Monitor.client).Nodup
  owned : Owned e.monitors
  quiet : e.status.isOver → e.isQuiet

/-- Steps leave to every monitor its own snapshots. -/
theorem Steps.owned (h : Steps e a e' new) (howned : Owned e.monitors) : Owned e'.monitors := by
  cases h with
  | cutNothing | cutFails | send => exact howned.set fun _ hs => by cases hs
  | cut found due waits kept =>
    refine howned.set fun s hs => ?_
    obtain rfl := List.mem_singleton.mp hs
    exact Ledger.client_of_take kept
  | leave told found turn =>
    obtain ⟨-, hnone, -⟩ := Monitor.held_of_quit? turn
    refine howned.set fun s hs => ?_
    rw [hnone] at hs
    cases hs
  | _ => exact howned

/-- What is under way for one client, from the board to the flush. -/
theorem filter_underWay (e : Engine) (c : ClientId) :
    e.underWay.filter (·.client = c) =
      e.board.filter (·.client = c) ++ e.channel.filter (·.client = c) ++
        (e.monitors.flatMap Monitor.held).filter (·.client = c) ++
          e.status.left.filter (·.client = c) := by
  simp only [underWay, List.filter_append]

/-- Nothing is left to flush before the end. -/
theorem left_of_not_isOver {s : Status} (h : ¬s.isOver) : s.left = [] := by
  cases s with
  | flushing clean elapsed left => exact absurd rfl h
  | _ => rfl

/-- In a quiet engine no monitor holds anything. -/
theorem held_of_isQuiet (hq : e.isQuiet) : e.monitors.flatMap Monitor.held = [] := by
  refine held_eq_nil fun m hm => ?_
  obtain ⟨i, hi⟩ := List.mem_iff_getElem?.mp hm
  exact isStopped_of_isQuiet hq hi

/-- Passing snapshots on does not change what is under way. -/
theorem Afterwards.underWay (h : Afterwards e e' new) (hquiet : e.status.isOver → e.isQuiet) :
    e'.underWay = e.underWay := by
  cases h with
  | receive front => simp [Engine.underWay, report, front]
  | advance => rfl
  | sendFlushed flushes =>
    have hnone := held_of_isQuiet (hquiet (by rw [flushes]; rfl))
    simp [Engine.underWay, push, flushes, hnone, Status.left]
  | finish flushes => simp [Engine.underWay, flushes, Status.left]

section Monitors

variable {m tick : Nat} {monitor : Monitor} {s : Snapshot}

/-- Of what the monitors hold, the snapshots of a client are those that its monitor holds. -/
theorem Passes.filter_held (hp : e.Passes told) (found : e.monitors[m]? = some monitor) :
    (e.monitors.flatMap Monitor.held).filter (·.client = monitor.client) = monitor.held :=
  held_of_client hp.clients hp.owned (List.mem_of_getElem? found)

/-- A monitor that holds nothing before and after a step changes nothing. -/
theorem Passes.underWay_idle (hp : e.Passes told) (found : e.monitors[m]? = some monitor)
    (next : Monitor) (hclient : next.client = monitor.client) (hbefore : monitor.held = [])
    (hafter : next.held = []) (c : ClientId) :
    (e.setMonitor m next).underWay.filter (·.client = c) = e.underWay.filter (·.client = c) := by
  have hnext : ∀ t ∈ next.held, t.client = next.client := fun t ht => by
    rw [hafter] at ht
    cases ht
  rw [filter_underWay, filter_underWay]
  dsimp only [setMonitor]
  rw [held_set hp.clients hp.owned found next hclient hnext c]
  by_cases hc : c = monitor.client
  · rw [if_pos hc, hafter, hc, hp.filter_held found, hbefore]
  · rw [if_neg hc]

/-- A monitor that waits has not ended, so the flush is still to come. -/
theorem Passes.left_of_waiting (hp : e.Passes told) (found : e.monitors[m]? = some monitor)
    (waits : monitor.phase = .waiting tick) : e.status.left = [] := by
  refine left_of_not_isOver fun hover => ?_
  have hstopped := isStopped_of_isQuiet (hp.quiet hover) found
  rw [hstopped] at waits
  cases waits

/-- What a monitor cuts is the last that is under way of its client. -/
theorem Passes.underWay_cut (hp : e.Passes told) (found : e.monitors[m]? = some monitor)
    (waits : monitor.phase = .waiting tick) (hclient : s.client = monitor.client) (later : Nat)
    (c : ClientId) :
    (e.setMonitor m { monitor with phase := .sending later s }).underWay.filter (·.client = c) =
      e.underWay.filter (·.client = c) ++ [s].filter (·.client = c) := by
  -- The monitor held nothing before, and holds the new snapshot now.
  have hnext : ∀ t ∈ [s], t.client = monitor.client := fun t ht => by
    rw [List.mem_singleton.mp ht, hclient]
  rw [filter_underWay, filter_underWay]
  dsimp only [setMonitor]
  rw [hp.left_of_waiting found waits,
    held_set hp.clients hp.owned found { monitor with phase := .sending later s } rfl hnext c]
  by_cases hc : c = monitor.client
  · rw [if_pos hc, hc, hp.filter_held found, Monitor.held_waiting waits]
    simp [Monitor.held, hclient]
  · have hother : ¬s.client = c := fun h => hc (h.symm.trans hclient)
    rw [if_neg hc]
    simp [hother]

/-- A snapshot goes from its monitor, which holds no other, to the end of the channel. -/
theorem Passes.underWay_send (hp : e.Passes told) (found : e.monitors[m]? = some monitor)
    (holds : monitor.phase = .sending tick s) (c : ClientId) :
    ((e.push s).setMonitor m { monitor with phase := .waiting tick }).underWay.filter
      (·.client = c) = e.underWay.filter (·.client = c) := by
  -- What the monitor holds belongs to its client, and it holds nothing afterwards.
  have hclient : s.client = monitor.client :=
    hp.owned monitor (List.mem_of_getElem? found) s (by rw [Monitor.held_sending holds]; simp)
  have hsent : ∀ t ∈ ([] : List Snapshot), t.client = monitor.client := fun t ht => by cases ht
  rw [filter_underWay, filter_underWay]
  dsimp only [setMonitor, push]
  rw [held_set hp.clients hp.owned found { monitor with phase := .waiting tick } rfl hsent c]
  by_cases hc : c = monitor.client
  · rw [if_pos hc, hc, hp.filter_held found, Monitor.held_sending holds]
    simp [Monitor.held, hclient]
  · have hother : ¬s.client = c := fun h => hc (h.symm.trans hclient)
    rw [if_neg hc]
    simp [hother]

end Monitors

/-- The flush puts its snapshots behind the channel: where it is clean, no monitor holds any. -/
theorem underWay_flush {ledger : Ledger} {clean : Bool} {since elapsed : Nat} {left : List Snapshot}
    (drains : e.status = .draining clean since) (hquiet : e.isQuiet) :
    { e with ledger, status := .flushing true elapsed left }.underWay = e.underWay ++ left := by
  simp [underWay, drains, held_of_isQuiet hquiet, Status.left]

/-- What is under way for a client stays as it is and in its order, and what is cut comes last. -/
theorem Steps.order (h : Steps e a e' new) (hclean : e'.status.isClean) (hp : e.Passes told)
    (c : ClientId) :
    e'.underWay.filter (·.client = c) =
      e.underWay.filter (·.client = c) ++ (journalOf new).shown.filter (·.client = c) := by
  -- Where no monitor is replaced, even the order of all snapshots stays.
  have hall : e'.underWay = e.underWay ++ (journalOf new).shown →
      e'.underWay.filter (·.client = c) =
        e.underWay.filter (·.client = c) ++ (journalOf new).shown.filter (·.client = c) := by
    intro h
    rw [h, List.filter_append]
  cases h with
  | record | crash =>
    refine hall ?_
    rw [journalOf_singleton, Event.entry, Journal.shown_ofRecord, List.append_nil]
    rfl
  | @cutNothing m tick monitor found due waits kept =>
    exact (hp.underWay_idle found { monitor with phase := .waiting (tick + 1) } rfl
      (Monitor.held_waiting waits) rfl c).trans (List.append_nil _).symm
  | cut found due waits kept =>
    rw [journalOf_singleton]
    exact hp.underWay_cut found waits (Ledger.client_of_take kept) _ c
  -- No cut fails while the books are right.
  | cutFails found due waits kept =>
    exact absurd kept (hp.books.take_ne_error _ _)
  | send room found holds =>
    exact (hp.underWay_send found holds c).trans (List.append_nil _).symm
  | leave told found turn =>
    obtain ⟨hbefore, hafter, hclient⟩ := Monitor.held_of_quit? turn
    exact (hp.underWay_idle found _ hclient hbefore hafter c).trans (List.append_nil _).symm
  | receive front =>
    exact hall (((Afterwards.receive front).underWay hp.quiet).trans (List.append_nil _).symm)
  | advance later =>
    exact hall (((Afterwards.advance later).underWay hp.quiet).trans (List.append_nil _).symm)
  | sendFlushed flushes =>
    exact hall (((Afterwards.sendFlushed flushes).underWay hp.quiet).trans
      (List.append_nil _).symm)
  | finish flushes drained =>
    exact hall (((Afterwards.finish flushes drained).underWay hp.quiet).trans
      (List.append_nil _).symm)
  | stop runs =>
    refine hall ?_
    simp [underWay, runs, Status.left]
  | @flush clean since left drains ripe kept =>
    have htrue : clean = true := hclean
    subst htrue
    rw [journalOf_singleton] at hall ⊢
    exact hall (underWay_flush drains ripe)
  | flushFails drains ripe kept => cases hclean
  | issue | reply | quit =>
    refine hall ?_
    simp [underWay, setInstance, Event.entry]

/-! ### Every run -/

section Runs

variable {config : EngineConfig} {profiles : List Profile} {as : List Action} {events : List Event}

/-- A monitor holds nothing at first. -/
theorem held_start (p : Profile) : (Monitor.start p).held = [] := by
  unfold Monitor.start
  split <;> rfl

/-- Monitors hold snapshots of their own clients in every run. -/
theorem run?_owned (h : (start config profiles).run? as = some (e, events)) :
    Owned e.monitors := by
  refine run?_induction (motive := fun mid _ => Owned mid.monitors) h (fun m hm s hs => ?_)
    fun hmid hstep => hstep.owned hmid
  obtain ⟨p, -, rfl⟩ := List.mem_map.mp hm
  rw [held_start] at hs
  cases hs

/-- In a run of accepted profiles in which nothing goes wrong, the engine passes snapshots on. -/
theorem run?_passes (accepted : Engine.check profiles = .ok ())
    (h : (start config profiles).run? as = some (e, events)) (hclean : e.status.isClean) :
    e.Passes events where
  books := run?_books h
  clients := by
    rw [run?_monitors_of_start h]
    exact ((validateAll_ok_iff profiles).mp accepted).2
  owned := run?_owned h
  quiet := run?_quiet h hclean

/-- In such a run, the snapshots of every client that were cut are under way, in their order. -/
theorem run?_order (accepted : Engine.check profiles = .ok ())
    (h : (start config profiles).run? as = some (e, events)) (hclean : e.status.isClean)
    (c : ClientId) :
    e.underWay.filter (·.client = c) = (journalOf events).shown.filter (·.client = c) := by
  refine run?_induction_along (motive := fun mid told => mid.status.isClean →
    mid.underWay.filter (·.client = c) = (journalOf told).shown.filter (·.client = c)) h
    (fun _ => ?_) ?_ hclean
  -- At the start nothing is held and nothing has been cut.
  · have hnone : (start config profiles).monitors.flatMap Monitor.held = [] := by
      refine List.flatMap_eq_nil_iff.mpr fun m hm => ?_
      obtain ⟨p, -, rfl⟩ := List.mem_map.mp hm
      exact held_start p
    rw [filter_underWay, hnone]
    rfl
  · intro before mid next a told new hbefore hmid hstep hclean
    have hearlier := hstep.isClean hclean
    rw [hstep.order hclean (run?_passes accepted hbefore hearlier) c, hmid hearlier,
      journalOf_append, Journal.shown_append, List.filter_append]

end Runs

end Engine

end ClosedLoop
