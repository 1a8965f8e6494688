import ClosedLoop.Proofs.Engine.Delivery

namespace ClosedLoop

/-!
# What is reported

* `reportsOf`, `flushesOf` — what the events of a run tell of reports and of flushes;
* `Engine.Reports` — the reports are the snapshots on the board, and the end of the run once it is
  over; the board shows the last snapshot of every client;
* `Engine.FlushedLast` — the flushed snapshots come last, in ascending order of their clients;
* `Engine.run?_reports`, `Engine.run?_flushedLast` — so it is after every run.
-/

namespace Event

/-- Was something reported, a snapshot or the end of the run? -/
def isReport : Event → Bool
  | .reported _ => true
  | .finished _ => true
  | _ => false

/-- The snapshots of a flush. -/
def flushed? : Event → Option (List Snapshot)
  | .flushed shown => some shown
  | _ => none

end Event

/-- The reports among the events. -/
def reportsOf (events : List Event) : List Event := events.filter Event.isReport

/-- The flushes among the events. -/
def flushesOf (events : List Event) : List (List Snapshot) := events.filterMap Event.flushed?

@[simp] theorem reportsOf_nil : reportsOf [] = [] := rfl

@[simp] theorem flushesOf_nil : flushesOf [] = [] := rfl

@[simp] theorem reportsOf_append (before after : List Event) :
    reportsOf (before ++ after) = reportsOf before ++ reportsOf after :=
  List.filter_append before after

@[simp] theorem flushesOf_append (before after : List Event) :
    flushesOf (before ++ after) = flushesOf before ++ flushesOf after :=
  List.filterMap_append

namespace Engine

variable {e e' : Engine} {a : Action} {told new : List Event}

/-! ### Reports and the board -/

/-- What was reported is on the board, and nothing comes after the end of the run. -/
structure Reports (e : Engine) (told : List Event) : Prop where
  calls : reportsOf told = e.board.map .reported ++ e.report?.toList.map .finished
  drained : e.report?.isSome → e.channel = []
  latest : ∀ c, e.latest? c = (e.historyOf c).getLast?

/-- There is no report before the ledger was flushed. -/
theorem report?_of_not_isOver (h : ¬e.status.isOver) : e.report? = none := by
  cases hs : e.status with
  | finished clean elapsed => rw [hs] at h; exact absurd rfl h
  | _ => simp only [report?, hs]

/-- There is no report before the flush is done. -/
theorem report?_of_flushing {clean : Bool} {elapsed : Nat} {left : List Snapshot}
    (h : e.status = .flushing clean elapsed left) : e.report? = none := by
  simp only [report?, h]

/-- Whether there is a report is for the status to say. -/
theorem report?_eq_none_of_status (hstatus : e'.status = e.status) (h : e.report? = none) :
    e'.report? = none := by
  cases hs : e.status with
  | finished clean elapsed =>
    rw [report?, hs] at h
    cases h
  | _ => simp only [report?, hstatus, hs]

/-- A step that reports nothing. -/
theorem Reports.keep (hr : e.Reports told) (hbefore : e.report? = none) (hafter : e'.report? = none)
    (hnew : reportsOf new = []) (hboard : e'.board = e.board) (hlatest : e'.latest = e.latest) :
    e'.Reports (told ++ new) where
  calls := by
    rw [reportsOf_append, hr.calls, hnew, hbefore, hafter, hboard, List.append_nil]
  drained hsome := by
    rw [hafter] at hsome
    cases hsome
  latest c := by
    have hc := hr.latest c
    simp only [latest?, historyOf, hboard, hlatest] at hc ⊢
    exact hc

/-- The entries of other clients stay. -/
theorem lookup_filter_ne {c d : ClientId} (hne : c ≠ d) (latest : List (ClientId × Snapshot)) :
    (latest.filter fun entry => entry.1 ≠ d).lookup c = latest.lookup c := by
  induction latest with
  | nil => rfl
  | cons entry rest ih =>
    obtain ⟨id, s⟩ := entry
    by_cases hid : id = d
    · subst hid
      rw [List.filter_cons_of_neg (by simp), ih, Accounts.lookup_cons_eq, if_neg hne]
    · rw [List.filter_cons_of_pos (by simpa using hid), Accounts.lookup_cons_eq,
        Accounts.lookup_cons_eq, ih]

/-- The last snapshot of a client is the one reported last. -/
theorem latest?_report (h : ∀ c, e.latest? c = (e.historyOf c).getLast?) (s : Snapshot)
    (c : ClientId) : (e.report s).latest? c = ((e.report s).historyOf c).getLast? := by
  rw [latest?, historyOf, report, Accounts.lookup_cons_eq, List.filter_append]
  by_cases hc : c = s.client
  · rw [if_pos hc, List.filter_cons_of_pos (by simpa using hc.symm), List.filter_nil,
      List.getLast?_concat]
  · have hne : ¬s.client = c := fun heq => hc heq.symm
    rw [if_neg hc, lookup_filter_ne hc, List.filter_cons_of_neg (by simpa using hne),
      List.filter_nil, List.append_nil]
    exact h c

/-- Reporting a snapshot puts it on the board. -/
theorem Reports.receive {s : Snapshot} {rest : List Snapshot} (hr : e.Reports told)
    (hnone : e.report? = none) :
    ({ e with channel := rest }.report s).Reports (told ++ [Event.reported s]) := by
  have hafter : ({ e with channel := rest }.report s).report? = none :=
    report?_eq_none_of_status (e := e) rfl hnone
  refine ⟨?_, fun hsome => ?_, latest?_report (e := { e with channel := rest }) hr.latest s⟩
  · rw [reportsOf_append, hr.calls, hnone, hafter]
    simp [reportsOf, Event.isReport, report]
  · rw [hafter] at hsome
    cases hsome

/-- Every step keeps the reports. -/
theorem Steps.reports (h : Steps e a e' new) (hclean : e'.status.isClean)
    (hquiet : e.status.isOver → e.isQuiet) (hr : e.Reports told) : e'.Reports (told ++ new) := by
  -- After the flush only passing on is left; before it there is no report of the end.
  by_cases hover : e.status.isOver
  · cases h.afterwards (hquiet hover) hover with
    | receive front =>
      -- Once the run is over, the channel is empty.
      refine hr.receive (Option.not_isSome_iff_eq_none.mp fun hsome => ?_)
      rw [hr.drained hsome] at front
      cases front
    | advance later =>
      -- The report of a run that is over does not depend on the time.
      rw [List.append_nil]
      exact ⟨hr.calls, hr.drained, hr.latest⟩
    | sendFlushed flushes =>
      exact hr.keep (report?_of_flushing flushes) (report?_of_flushing rfl) rfl rfl rfl
    | finish flushes drained =>
      refine ⟨?_, fun _ => drained, hr.latest⟩
      rw [reportsOf_append, hr.calls, report?_of_flushing flushes]
      simp [reportsOf, Event.isReport, report?, reportAt]
  · have hbefore := report?_of_not_isOver hover
    cases h with
    | receive front => exact hr.receive hbefore
    | sendFlushed flushes | finish flushes => rw [flushes] at hover; exact absurd rfl hover
    | flushFails => cases hclean
    | flush => exact hr.keep hbefore (report?_of_flushing rfl) rfl rfl rfl
    | stop => exact hr.keep hbefore rfl rfl rfl rfl
    | _ => exact hr.keep hbefore (report?_of_not_isOver hover) rfl rfl rfl

/-! ### The flush -/

/-- Nothing is flushed before the end of the run; the snapshots of the flush come last of all, in
    ascending order of their clients. -/
def FlushedLast (e : Engine) (told : List Event) : Prop :=
  if e.status.isOver then
    ∃ sent flushed, flushesOf told = [flushed] ∧ e.underWay = sent ++ flushed ∧
      (flushed.map Snapshot.client).Pairwise (· < ·)
  else flushesOf told = []

/-- After the end of a run nothing is flushed again. -/
theorem Afterwards.isOver (h : Afterwards e e' new) (hover : e.status.isOver) :
    e'.status.isOver ∧ flushesOf new = [] := by
  cases h with
  | sendFlushed | finish => exact ⟨rfl, rfl⟩
  | receive | advance => exact ⟨hover, rfl⟩

/-- Every step keeps the flushed snapshots last. -/
theorem Steps.flushedLast (h : Steps e a e' new) (hclean : e'.status.isClean)
    (hp : e.Passes told) (hl : e.FlushedLast told) : e'.FlushedLast (told ++ new) := by
  unfold FlushedLast at *
  by_cases hover : e.status.isOver
  · have hafter := h.afterwards (hp.quiet hover) hover
    obtain ⟨hover', hnone⟩ := hafter.isOver hover
    rw [if_pos hover] at hl
    rw [if_pos hover', hafter.underWay hp.quiet, flushesOf_append, hnone, List.append_nil]
    exact hl
  · rw [if_neg hover] at hl
    rw [flushesOf_append, hl, List.nil_append]
    cases h with
    -- Everything has ended, so what is under way is on the board or in the channel.
    | @flush clean since left drains ripe kept =>
      have htrue : clean = true := hclean
      subst htrue
      refine (if_pos rfl).mpr ⟨e.board ++ e.channel, left, rfl, ?_,
        Ledger.flush_ascending hp.books.keeps.ascending kept⟩
      simp [underWay, held_of_isQuiet ripe, Status.left]
    | flushFails => cases hclean
    | sendFlushed flushes | finish flushes => rw [flushes] at hover; exact absurd rfl hover
    | stop => rfl
    | _ => exact (if_neg hover).mpr rfl

/-! ### Every run -/

section Runs

variable {config : EngineConfig} {profiles : List Profile} {as : List Action} {events : List Event}

/-- The report of a clean run shows what its events say. -/
theorem run?_reports (h : (start config profiles).run? as = some (e, events))
    (hclean : e.status.isClean) : e.Reports events := by
  refine run?_induction_along (motive := fun mid told => mid.status.isClean → mid.Reports told) h
    (fun _ => ⟨rfl, fun hsome => (by cases hsome), fun _ => rfl⟩) ?_ hclean
  intro before mid next a told new hbefore hmid hstep hclean
  have hearlier := hstep.isClean hclean
  exact hstep.reports hclean (run?_quiet hbefore hearlier) (hmid hearlier)

/-- The snapshots of the flush come last. -/
theorem run?_flushedLast (accepted : Engine.check profiles = .ok ())
    (h : (start config profiles).run? as = some (e, events)) (hclean : e.status.isClean) :
    e.FlushedLast events := by
  refine run?_induction_along (motive := fun mid told => mid.status.isClean →
    mid.FlushedLast told) h (fun _ => rfl) ?_ hclean
  intro before mid next a told new hbefore hmid hstep hclean
  have hearlier := hstep.isClean hclean
  exact hstep.flushedLast hclean (run?_passes accepted hbefore hearlier) (hmid hearlier)

end Runs

end Engine

end ClosedLoop
