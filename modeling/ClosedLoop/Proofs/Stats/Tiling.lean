import ClosedLoop.Proofs.Stats.Events

namespace ClosedLoop

/-!
# The windows of a client tile the time

Every cut of a window ends one period and begins the next at the same reading of the clock, whether
it shows a snapshot or not.

* `Stretch` — a window that is still open: its start and what it has counted;
* `Period` — a window that was cut, `Period.Sound` what the cut shows of it;
* `Stretch.periods`, `Stretch.last` — the windows that a sequence of events closes, and the one that
  it leaves open;
* `Replay.Sees` — the open window of the ledger is a stretch, which every operation preserves;
* `Replay.tiles` — **the windows of every client tile the time and contain what they count**, after
  any operations.
-/

namespace Span

/-- A time is not after itself. -/
theorem le_refl (a : Span) : a ≤ a := Nat.le_refl a.nanos

/-- Times are compared in nanoseconds, so their order is transitive. -/
theorem le_trans {a b c : Span} (hab : a ≤ b) (hbc : b ≤ c) : a ≤ c := Nat.le_trans hab hbc

end Span

/-! ### Open windows and closed ones -/

/-- A window that is open: when it starts and the records that it has counted. -/
structure Stretch where
  start : Span
  receipts : List Receipt

/-- The counters of an open window. -/
def Stretch.window (o : Stretch) : Window :=
  o.receipts.foldl (fun w e => (w.add e.counted).1) (Window.openAt o.start)

/-- A window that was cut, with what the cut answers. -/
structure Period extends Stretch where
  stop : Span
  result : Except Fault (Option Snapshot)

/-- The snapshot of a period, if it has one. -/
def Period.snapshot? (p : Period) : Option Snapshot :=
  WindowEvent.snapshot? (.cut p.stop p.result)

/-- A period that shows a snapshot ended in this snapshot. -/
theorem Period.result_of_snapshot? {p : Period} {s : Snapshot} (h : p.snapshot? = some s) :
    p.result = .ok (some s) := by
  cases hresult : p.result with
  | error fault => simp [snapshot?, WindowEvent.snapshot?, hresult] at h
  | ok shown => simpa [snapshot?, WindowEvent.snapshot?, hresult] using h

/-- The records of an open window, as they are counted. -/
def Stretch.records (o : Stretch) : List Record := o.receipts.map Receipt.counted

/-- A snapshot shows a period of a client: from its start to its end, all that the window has
counted in it and nothing else. -/
structure Period.Shows (c : ClientId) (p : Period) (s : Snapshot) : Prop where
  client : s.client = c
  start : s.start = p.start
  stop : s.stop = p.stop
  tally : s.tally = tallyOf p.records
  counters : ∃ name mean, s = p.window.shownWith c name p.stop mean

/-- A period comes in the order of the clock, counts what came in during it, and its cut, if it
does not end in a fault, shows it if it has counted anything. -/
structure Period.Sound (client : ClientId) (p : Period) : Prop where
  ordered : p.start ≤ p.stop
  within : ∀ e ∈ p.receipts, p.start ≤ e.now ∧ e.now ≤ p.stop
  silent : p.result = .ok none → p.receipts = []
  shown : ∀ s, p.result = .ok (some s) → p.receipts ≠ [] ∧ p.Shows client s

namespace Stretch

/-- An open window with one more record. -/
def add (o : Stretch) (e : Receipt) : Stretch := ⟨o.start, o.receipts ++ [e]⟩

/-- The windows that events close, beginning with an open one. -/
def periods (o : Stretch) : List WindowEvent → List Period
  | [] => []
  | .counted e :: rest => (o.add e).periods rest
  | .cut now result :: rest => ⟨o, now, result⟩ :: Stretch.periods ⟨now, []⟩ rest

/-- The window that is open after events. -/
def last (o : Stretch) : List WindowEvent → Stretch
  | [] => o
  | .counted e :: rest => (o.add e).last rest
  | .cut now _ :: rest => Stretch.last ⟨now, []⟩ rest

@[simp] theorem window_add (o : Stretch) (e : Receipt) :
    (o.add e).window = (o.window.add e.counted).1 := by
  simp [window, Stretch.add]

/-- Records do not move the start of a window. -/
theorem start_window (o : Stretch) : o.window.start = o.start := by
  have hfold (w : Window) (receipts : List Receipt) :
      (receipts.foldl (fun w e => (w.add e.counted).1) w).start = w.start := by
    induction receipts generalizing w with
    | nil => rfl
    | cons e rest ih =>
      rw [List.foldl_cons, ih, Window.add]
      split <;> rfl
  exact hfold _ _

/-- An open window counts its records and no others. -/
theorem tally_window (o : Stretch) : o.window.tally = tallyOf o.records := by
  -- The window is folded over the records one by one, and the counters are folded with it.
  have hfold (w : Window) (receipts : List Receipt) :
      (receipts.foldl (fun w e => (w.add e.counted).1) w).tally =
        w.tally + tallyOf (receipts.map Receipt.counted) := by
    induction receipts generalizing w with
    | nil => exact (add_zero w.tally).symm
    | cons e rest ih =>
      have hadd : (w.add e.counted).1.tally = w.tally + tallyOf [e.counted] := by
        have hcount : (w.add e.counted).1.tally = w.tally.count e.counted.outcome := by
          rw [Window.add]
          split <;> rfl
        rw [hcount]
        exact Tally.count_eq_add _ _
      rw [List.foldl_cons, ih, hadd, add_assoc, ← tallyOf_append]
      rfl
  rw [window, hfold]
  exact zero_add _

/-- An open window has seen no activity exactly if it has counted no record. -/
theorem isEmpty_window (o : Stretch) : o.window.isEmpty = o.receipts.isEmpty := by
  rw [Window.isEmpty, tally_window, requests_tallyOf, records, List.length_map]
  cases o.receipts <;> rfl

variable (o : Stretch) (events : List WindowEvent)

/-- Every period starts where the one before ends, and the open window where the last one does. -/
theorem starts_periods : (o.periods events).map (·.start) ++ [(o.last events).start] =
    o.start :: events.filterMap WindowEvent.reading? := by
  induction events generalizing o with
  | nil => rfl
  | cons ev rest ih =>
    cases ev with
    | counted e => exact ih (o.add e)
    | cut now result => exact congrArg (o.start :: ·) (ih ⟨now, []⟩)

/-- The periods end at the cuts. -/
theorem stops_periods :
    (o.periods events).map (·.stop) = events.filterMap WindowEvent.reading? := by
  induction events generalizing o with
  | nil => rfl
  | cons ev rest ih =>
    cases ev with
    | counted e => exact ih (o.add e)
    | cut now result => exact congrArg (now :: ·) (ih ⟨now, []⟩)

/-- Every record is counted in one period or in the open window. -/
theorem receipts_periods : (o.periods events).flatMap (·.receipts) ++ (o.last events).receipts =
    o.receipts ++ events.filterMap WindowEvent.receipt? := by
  induction events generalizing o with
  | nil => simp [periods, last]
  | cons ev rest ih =>
    cases ev with
    | counted e =>
      have hrest := ih (o.add e)
      simpa [periods, last, Stretch.add, WindowEvent.receipt?] using hrest
    | cut now result =>
      have hrest := ih ⟨now, []⟩
      rw [periods, last, List.flatMap_cons, List.append_assoc, hrest,
        List.filterMap_cons_none rfl, List.nil_append]

/-- The snapshots of the periods are those of the cuts. -/
theorem snapshots_periods : (o.periods events).filterMap Period.snapshot? =
    events.filterMap WindowEvent.snapshot? := by
  induction events generalizing o with
  | nil => rfl
  | cons ev rest ih =>
    cases ev with
    | counted e => exact ih (o.add e)
    | cut now result =>
      rw [periods, List.filterMap_cons, List.filterMap_cons, ih ⟨now, []⟩]
      rfl

/-- Periods do not overlap if the cuts come in the order of the clock. -/
theorem periods_apart
    (hascending : (o.start :: events.filterMap WindowEvent.reading?).Pairwise (· ≤ ·)) :
    (o.periods events).Pairwise fun p q => p.stop ≤ q.start := by
  induction events generalizing o with
  | nil => exact List.Pairwise.nil
  | cons ev rest ih =>
    cases ev with
    | counted e => exact ih (o.add e) hascending
    | cut now result =>
      have hlater : (now :: rest.filterMap WindowEvent.reading?).Pairwise (· ≤ ·) :=
        (List.pairwise_cons.mp hascending).2
      refine List.pairwise_cons.mpr ⟨fun q hq => ?_, ih ⟨now, []⟩ hlater⟩
      -- a later period starts at this cut or at a later one
      have hstart : q.start ∈ now :: rest.filterMap WindowEvent.reading? := by
        rw [← starts_periods ⟨now, []⟩ rest]
        exact List.mem_append_left _ (List.mem_map_of_mem hq)
      rcases List.mem_cons.mp hstart with heq | hmem
      · show now ≤ q.start
        rw [heq]
        exact Span.le_refl now
      · exact (List.pairwise_cons.mp hlater).1 q.start hmem

end Stretch

/-! ### The open window of the ledger -/

namespace Replay

/-- The clock never goes back. -/
theorem now_le_perform (s : Replay) (op : Operation) : s.now ≤ (s.perform op).1.now := by
  cases op with
  -- Only the passing of time moves the clock, and a clock without room stays where it is.
  | advance d =>
    rw [perform, Clock.after]
    by_cases hlt : s.now.nanos + d.nanos < Clock.range
    · simp only [if_pos hlt]
      have hrange : Clock.range ≤ UInt64.size * 1000000000 - 1 := by decide
      show s.now.nanos ≤ (Span.clamp (s.now.nanos + d.nanos)).nanos
      rw [Span.nanos_clamp]
      omega
    · simp only [if_neg hlt]
      exact Span.le_refl s.now
  | record r => exact Span.le_refl s.now
  | recordCompleted r => exact Span.le_refl s.now
  | take client => exact Span.le_refl s.now
  | flush => exact Span.le_refl s.now

/-- Operations keep the accounts in order. -/
theorem ascending_perform {s : Replay} (asc : s.ledger.accounts.Ascending) (op : Operation) :
    (s.perform op).1.ledger.accounts.Ascending := by
  have hclients : (s.perform op).1.ledger.accounts.map Prod.fst =
      s.ledger.accounts.map Prod.fst := clients_perform s op
  rw [Accounts.Ascending, hclients]
  exact asc

/-- Accounts stay in order during any operations. -/
theorem ascending_performAll {s : Replay} (asc : s.ledger.accounts.Ascending)
    (ops : List Operation) : (s.performAll ops).1.ledger.accounts.Ascending := by
  induction ops generalizing s with
  | nil => exact asc
  | cons op rest ih => exact ih (ascending_perform asc op)

/-- The open window of a client is a stretch up to now. -/
structure Sees (s : Replay) (c : ClientId) (o : Stretch) : Prop where
  ascending : s.ledger.accounts.Ascending
  begun : o.start ≤ s.now
  within : ∀ e ∈ o.receipts, o.start ≤ e.now ∧ e.now ≤ s.now
  window : ∀ a, s.ledger.account? c = some a → a.window = o.window

/-- The ledger sees an empty stretch for every client when it is opened. -/
theorem sees_openedAt (begun : Span) (profiles : List Profile) (c : ClientId) :
    (openedAt begun profiles).Sees c ⟨begun, []⟩ where
  ascending := Ledger.ascending_openFor profiles begun
  begun := Span.le_refl begun
  within e he := absurd he List.not_mem_nil
  window a ha := by
    have haccount : (Ledger.openFor profiles begun).account? c = some a := ha
    rw [Ledger.account?_openFor] at haccount
    obtain ⟨p, -, rfl⟩ := Option.map_eq_some_iff.mp haccount
    rfl

variable {s : Replay} {c : ClientId} {o : Stretch} {op : Operation}

/-- An operation without an event leaves the window as it is. -/
theorem Sees.idle (h : s.Sees c o) (hnone : s.event? c op = none) :
    (s.perform op).1.Sees c o where
  ascending := ascending_perform h.ascending op
  begun := Span.le_trans h.begun (now_le_perform s op)
  within e he :=
    ⟨(h.within e he).1, Span.le_trans (h.within e he).2 (now_le_perform s op)⟩
  window b hb := by
    rw [account?_perform h.ascending, hnone] at hb
    obtain ⟨a, ha, rfl⟩ := Option.map_eq_some_iff.mp hb
    exact h.window a ha

/-- A record is counted in the open window. -/
theorem Sees.counted (h : s.Sees c o) {e : Receipt}
    (hevent : s.event? c op = some (.counted e)) : (s.perform op).1.Sees c (o.add e) where
  ascending := ascending_perform h.ascending op
  begun := Span.le_trans h.begun (now_le_perform s op)
  within f hf := by
    have hlater := now_le_perform s op
    rcases List.mem_append.mp hf with hold | hnew
    · exact ⟨(h.within f hold).1, Span.le_trans (h.within f hold).2 hlater⟩
    · obtain rfl := List.mem_singleton.mp hnew
      rw [now_of_event?_counted hevent]
      exact ⟨h.begun, hlater⟩
  window b hb := by
    -- The account has changed by this record, and so has the window of the stretch.
    rw [account?_perform h.ascending, hevent] at hb
    obtain ⟨a, ha, rfl⟩ := Option.map_eq_some_iff.mp hb
    show (a.add e.counted).1.window = _
    rw [Account.window_add, h.window a ha, Stretch.window_add]

/-- A cut opens a window at the reading of the clock. -/
theorem Sees.cut (h : s.Sees c o) {now : Span} {result : Except Fault (Option Snapshot)}
    (hevent : s.event? c op = some (.cut now result)) :
    (s.perform op).1.Sees c ⟨now, []⟩ where
  ascending := ascending_perform h.ascending op
  begun := by
    rw [(cut_of_event? h.ascending hevent).1]
    exact now_le_perform s op
  within e he := absurd he List.not_mem_nil
  window b hb := by
    rw [account?_perform h.ascending, hevent] at hb
    obtain ⟨a, ha, rfl⟩ := Option.map_eq_some_iff.mp hb
    exact Account.window_renew a now

/-- A cut shows the stretch that it ends. -/
theorem Sees.sound (h : s.Sees c o) {now : Span} {result : Except Fault (Option Snapshot)}
    (hevent : s.event? c op = some (.cut now result)) : Period.Sound c ⟨o, now, result⟩ := by
  obtain ⟨rfl, hresult⟩ := cut_of_event? h.ascending hevent
  have hcut {shown : Option Snapshot} (hshown : result = .ok shown) :
      ∃ name, (if o.receipts.isEmpty then .ok none
        else (o.window.close c name s.now).map some) = Except.ok shown := by
    obtain ⟨a, ha, hcut⟩ := hresult shown hshown
    rw [Account.cut_eq, h.window a ha, Stretch.isEmpty_window] at hcut
    exact ⟨a.name, hcut⟩
  refine ⟨h.begun, h.within, fun hsilent => ?_, fun t hshown => ?_⟩
  · obtain ⟨name, hnone⟩ := hcut hsilent
    by_cases hempty : o.receipts.isEmpty
    · exact List.isEmpty_iff.mp hempty
    · rw [if_neg hempty] at hnone
      cases hclose : o.window.close c name s.now with
      | error fault => rw [hclose] at hnone; cases hnone
      | ok t => rw [hclose] at hnone; cases hnone
  · obtain ⟨name, hsome⟩ := hcut hshown
    by_cases hempty : o.receipts.isEmpty
    · rw [if_pos hempty] at hsome
      cases hsome
    · rw [if_neg hempty] at hsome
      refine ⟨fun hnil => hempty (by rw [hnil]; rfl), ?_⟩
      cases hclose : o.window.close c name s.now with
      | error fault => rw [hclose] at hsome; cases hsome
      | ok shown =>
        rw [hclose] at hsome
        cases hsome
        obtain ⟨mean, -, rfl⟩ := Window.close_ok hclose
        have hstart : o.window.start = o.start := o.start_window
        -- the clock has not gone back since the window was opened
        have hstop : max s.now o.window.start = s.now := by
          ext
          rw [Span.nanos_max, hstart]
          exact Nat.max_eq_left h.begun
        exact ⟨rfl, hstart, hstop, o.tally_window, name, mean, rfl⟩

/-! ### Sequences of operations -/

/-- Every period that operations close is sound. -/
theorem Sees.periods_sound (h : s.Sees c o) (ops : List Operation) :
    ∀ p ∈ o.periods (s.events c ops), p.Sound c := by
  induction ops generalizing s o with
  | nil => exact fun p hp => absurd hp List.not_mem_nil
  | cons op rest ih =>
    rw [events]
    -- Operations that are not about the client leave its stretch as it is.
    cases hevent : s.event? c op with
    | none => exact ih (h.idle hevent)
    | some ev =>
      cases ev with
      | counted e => exact ih (h.counted hevent)
      | cut now result =>
        intro p hp
        rcases List.mem_cons.mp hp with rfl | hlater
        · exact h.sound hevent
        · exact ih (h.cut hevent) p hlater

/-- After operations the open window of the ledger is what their events leave open. -/
theorem Sees.performAll (h : s.Sees c o) (ops : List Operation) :
    (s.performAll ops).1.Sees c (o.last (s.events c ops)) := by
  induction ops generalizing s o with
  | nil => exact h
  | cons op rest ih =>
    rw [events]
    cases hevent : s.event? c op with
    | none => exact ih (h.idle hevent)
    | some ev =>
      cases ev with
      | counted e => exact ih (h.counted hevent)
      | cut now result => exact ih (h.cut hevent)

/-- The cuts of a client come in the order of the clock. -/
theorem Sees.readings_ascending (h : s.Sees c o) (ops : List Operation) :
    (o.start :: (s.events c ops).filterMap WindowEvent.reading? ++
      [(s.performAll ops).1.now]).Pairwise (· ≤ ·) := by
  induction ops generalizing s o with
  | nil => simpa [events, Replay.performAll] using h.begun
  | cons op rest ih =>
    rw [events]
    cases hevent : s.event? c op with
    | none => exact ih (h.idle hevent)
    | some ev =>
      cases ev with
      | counted e =>
        have hrest := ih (h.counted hevent)
        exact hrest
      | cut now result =>
        -- The cut comes at the reading of the clock, which no earlier cut is past.
        have hnow : now = s.now := (cut_of_event? h.ascending hevent).1
        have hrest := ih (h.cut hevent)
        refine List.pairwise_cons.mpr ⟨fun t ht => ?_, hrest⟩
        have hstart : o.start ≤ now := hnow ▸ h.begun
        rcases List.mem_cons.mp ht with rfl | hlater
        · exact hstart
        · exact Span.le_trans hstart ((List.pairwise_cons.mp hrest).1 t hlater)

/-- The snapshots of a client that operations give out are those of its events. -/
theorem Sees.shownOf_performAll (h : s.Sees c o) (ops : List Operation) :
    shownOf c (s.performAll ops).2 =
      (s.events c ops).filterMap WindowEvent.snapshot? := by
  have hshown (s : Replay) (asc : s.ledger.accounts.Ascending) (ops : List Operation) :
      shownOf c (s.performAll ops).2 =
        (s.events c ops).filterMap WindowEvent.snapshot? := by
    induction ops generalizing s with
    | nil => rfl
    | cons op rest ih =>
      rw [events, List.filterMap_append, ← ih _ (ascending_perform asc op),
        ← shown_perform asc op]
      simp [shownOf, Replay.performAll]
  exact hshown s h.ascending ops

end Replay

/-! ### The tiling -/

/-- A record that was completed before it came in and whose completion is raised falls into every
period that it came in during, and so does its latency. -/
theorem Period.Sound.stamped {client : ClientId} {p : Period} (h : p.Sound client) {e : Receipt}
    (he : e ∈ p.receipts) (hraised : e.raised = true) (hearly : e.given.completed ≤ e.now) :
    p.start ≤ e.counted.completed ∧ e.counted.completed ≤ p.stop ∧
      e.counted.latency ≤ p.stop.since e.given.issued := by
  obtain ⟨hstart, hstop⟩ := h.within e he
  have hcounted : e.counted = e.given.completedBy e.now := by rw [Receipt.counted, if_pos hraised]
  -- The completion is raised to the instant at which the record came in.
  have hstamp : e.counted.completed = e.now := by
    rw [hcounted]
    ext
    show (max e.given.completed e.now).nanos = e.now.nanos
    rw [Span.nanos_max]
    exact Nat.max_eq_right hearly
  have hissued : e.counted.issued = e.given.issued := by rw [hcounted]; rfl
  refine ⟨hstamp ▸ hstart, hstamp ▸ hstop, ?_⟩
  show (e.counted.completed.since e.counted.issued).nanos ≤ _
  rw [hstamp, hissued]
  exact Nat.sub_le_sub_right hstop _

/-- The windows of a client tile the time from `begun` to `now`: the periods are those between the
successive cuts, every record is counted in exactly one of them or in the window left open, and the
snapshots given out are those of the periods. -/
structure Tiling (client : ClientId) (begun now : Span) (events : List WindowEvent)
    (periods : List Period) (rest : Stretch) (shown : List Snapshot) : Prop where
  /-- Every period starts where the one before was cut, the first one at the beginning. -/
  starts : periods.map (·.start) ++ [rest.start] = begun :: events.filterMap WindowEvent.reading?
  stops : periods.map (·.stop) = events.filterMap WindowEvent.reading?
  ascending : (begun :: events.filterMap WindowEvent.reading? ++ [now]).Pairwise (· ≤ ·)
  /-- Every record is counted once, in the order in which the records came in. -/
  once : periods.flatMap (·.receipts) ++ rest.receipts = events.filterMap WindowEvent.receipt?
  sound : ∀ p ∈ periods, p.Sound client
  /-- A record with a raised completion is counted where its completion lies. -/
  stamped : ∀ p ∈ periods, ∀ e ∈ p.receipts, e.raised = true → e.given.completed ≤ e.now →
    p.start ≤ e.counted.completed ∧ e.counted.completed ≤ p.stop ∧
      e.counted.latency ≤ p.stop.since e.given.issued
  pending : ∀ e ∈ rest.receipts, rest.start ≤ e.now ∧ e.now ≤ now
  snapshots : shown = periods.filterMap Period.snapshot?
  /-- The snapshots do not overlap. -/
  apart : shown.Pairwise fun s t => s.stop ≤ t.start

namespace Replay

/-- **The windows of a client tile the time and contain what they count**, after any operations on a
ledger, whether they end in faults or not. -/
theorem tiles (profiles : List Profile) (begun : Span) (ops : List Operation) (c : ClientId) :
    let opened := openedAt begun profiles
    let events := opened.events c ops
    Tiling c begun (opened.performAll ops).1.now events (Stretch.periods ⟨begun, []⟩ events)
        (Stretch.last ⟨begun, []⟩ events) (shownOf c (opened.performAll ops).2) ∧
      ∀ a, (opened.performAll ops).1.ledger.account? c = some a →
        a.window = (Stretch.last ⟨begun, []⟩ events).window := by
  intro opened events
  have hsees : opened.Sees c ⟨begun, []⟩ := sees_openedAt begun profiles c
  have hlast := hsees.performAll ops
  have hsound := hsees.periods_sound ops
  have hascending := hsees.readings_ascending ops
  have hsnapshots : shownOf c (opened.performAll ops).2 =
      (Stretch.periods ⟨begun, []⟩ events).filterMap Period.snapshot? := by
    rw [hsees.shownOf_performAll ops, Stretch.snapshots_periods]
  refine ⟨?_, hlast.window⟩
  exact {
    starts := Stretch.starts_periods ⟨begun, []⟩ events
    stops := Stretch.stops_periods ⟨begun, []⟩ events
    ascending := hascending
    once := Stretch.receipts_periods ⟨begun, []⟩ events
    sound := hsound
    stamped := fun p hp e he hraised hearly => (hsound p hp).stamped he hraised hearly
    pending := hlast.within
    snapshots := hsnapshots
    apart := by
      -- Snapshots are those of the periods, which do not overlap.
      have hperiods : (Stretch.periods ⟨begun, []⟩ events).Pairwise fun p q => p.stop ≤ q.start :=
        Stretch.periods_apart ⟨begun, []⟩ events
          (hascending.sublist (List.sublist_append_left _ _))
      rw [hsnapshots, List.pairwise_filterMap]
      refine hperiods.imp_of_mem fun {p q} hp hq hle t ht u hu => ?_
      have hshows := ((hsound p hp).shown t (Period.result_of_snapshot? ht)).2
      have hlater := ((hsound q hq).shown u (Period.result_of_snapshot? hu)).2
      rw [hshows.stop, hlater.start]
      exact hle }

/-- The timeout falls into the first window, the two successes into the second, which has no
length. -/
example :
    (Stretch.periods ⟨Span.zero, []⟩ ((openedAt Span.zero twoClients).events 7 cutThenFlush)).map
        (fun p => (p.start, p.stop, p.receipts.length)) =
      [(Span.zero, Span.ofMillis 10, 1), (Span.ofMillis 10, Span.ofMillis 10, 2)] := by
  decide +kernel

end Replay

end ClosedLoop
