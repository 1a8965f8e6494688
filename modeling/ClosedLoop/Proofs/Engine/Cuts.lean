import ClosedLoop.Proofs.Engine.Reporting
import Mathlib.Data.List.Count

namespace ClosedLoop

/-!
# From cut windows to the report

* `Cut`, `Engine.cutsAlong` — the windows with activity that a run takes out of the ledger;
* `Engine.Steps.cuts`, `Engine.run?_cuts` — the events show the snapshots of these windows;
* `Engine.delivers` — **every window that was cut is reported once**, in the order of the cuts for
  each client and with the flushed windows last.
-/

/-- A window with activity that was taken out of the account of a client. -/
structure Cut where
  client : ClientId
  name : String
  window : Window
  time : Span

/-- What the window shows. -/
def Cut.snapshot (c : Cut) : Except Fault Snapshot := c.window.close c.client c.name c.time

/-- The window that a cut takes out of an account, if it has seen activity. -/
def Account.cutAt (a : Account) (client : ClientId) (now : Span) : Option Cut :=
  if a.window.isEmpty then none else some ⟨client, a.name, a.window, now⟩

namespace Engine

/-- The windows with activity that an action takes out of the ledger. -/
def cuts (e : Engine) : Action → List Cut
  | .cut m =>
    (e.monitors[m]?.bind fun monitor =>
      (e.ledger.account? monitor.client).bind (·.cutAt monitor.client e.reading)).toList
  | .flush _ => e.ledger.accounts.flatMap fun entry => (entry.2.cutAt entry.1 e.reading).toList
  | _ => []

/-- The windows with activity that a run takes out of the ledger, in order. -/
def cutsAlong (e : Engine) : List Action → List Cut
  | [] => []
  | a :: rest =>
    match e.step? a with
    | some (next, _) => e.cuts a ++ next.cutsAlong rest
    | none => []

end Engine

/-! ### Cuts and their snapshots -/

/-- A cut without a fault shows the window that it takes out. -/
theorem Account.cutAt_shown {a : Account} {client : ClientId} {now : Span}
    {shown : Option Snapshot} (h : (a.cut client now).2 = .ok shown) :
    (a.cutAt client now).toList.map Cut.snapshot = shown.toList.map .ok := by
  rw [Account.cut_eq] at h
  by_cases hempty : a.window.isEmpty
  · rw [if_pos hempty] at h
    cases h
    rw [cutAt, if_pos hempty]
    rfl
  -- The window is not empty, so the cut closes it or fails.
  · rw [if_neg hempty] at h
    rw [cutAt, if_neg hempty]
    cases hclose : a.window.close client a.name now with
    | error fault => rw [hclose] at h; cases h
    | ok s =>
      rw [hclose] at h
      cases h
      simp [Cut.snapshot, hclose]

/-- A flush without a fault shows the windows that it takes out. -/
theorem Ledger.cutAt_flushed {l : Ledger} {now : Span} {shown : List Snapshot}
    (h : (l.flush now).2 = .ok shown) :
    (l.accounts.flatMap fun entry => (entry.2.cutAt entry.1 now).toList).map Cut.snapshot =
      shown.map .ok := by
  have hcut : (l.accounts.cutAll now).2 = .ok shown := h
  -- All cuts of a flush without a fault were without a fault.
  obtain ⟨-, rfl, hoks⟩ := Accounts.cutAll_ok hcut
  generalize l.accounts = as at hoks
  induction as with
  | nil => rfl
  | cons entry rest ih =>
    obtain ⟨id, a⟩ := entry
    rw [List.forall_mem_cons] at hoks
    rw [List.flatMap_cons, List.flatMap_cons, List.map_append, List.map_append, ih hoks.2,
      Account.cutAt_shown hoks.1]

/-- The snapshots of the cuts of one client are the snapshots of that client. -/
theorem filter_snapshots {cuts : List Cut} {shown : List Snapshot}
    (h : cuts.map Cut.snapshot = shown.map .ok) (c : ClientId) :
    (cuts.filter (·.client = c)).map Cut.snapshot = (shown.filter (·.client = c)).map .ok := by
  induction cuts generalizing shown with
  | nil =>
    obtain rfl := List.map_eq_nil_iff.mp h.symm
    rfl
  | cons cut rest ih =>
    cases shown with
    | nil => cases h
    | cons s others =>
      rw [List.map_cons, List.map_cons, List.cons.injEq] at h
      obtain ⟨hsnapshot, hrest⟩ := h
      -- A snapshot names the client of its window, so both lists are filtered alike.
      have hclient : s.client = cut.client := by
        obtain ⟨mean, -, rfl⟩ := Window.close_ok hsnapshot
        rfl
      by_cases hc : cut.client = c
      · rw [List.filter_cons_of_pos (by simpa using hc),
          List.filter_cons_of_pos (by simpa [hclient] using hc), List.map_cons, List.map_cons,
          hsnapshot, ih hrest]
      · rw [List.filter_cons_of_neg (by simpa using hc),
          List.filter_cons_of_neg (by simpa [hclient] using hc), ih hrest]

namespace Engine

variable {e e' : Engine} {a : Action} {told new : List Event}

/-- A step shows the snapshots of the windows that it cuts. -/
theorem Steps.cuts (h : Steps e a e' new) (hb : e.Books told) :
    (e.cuts a).map Cut.snapshot = (journalOf new).shown.map .ok := by
  -- A monitor cuts the window of its client, if that has an account.
  have htake : ∀ {m : Nat} {monitor : Monitor} {shown : Option Snapshot},
      e.monitors[m]? = some monitor → (e.ledger.take e.reading monitor.client).2 = .ok shown →
      (e.cuts (.cut m)).map Cut.snapshot = shown.toList.map .ok := by
    intro m monitor shown found kept
    unfold Ledger.take at kept
    rw [Engine.cuts, found, Option.bind_some]
    cases hfound : e.ledger.account? monitor.client with
    | none =>
      rw [hfound] at kept
      cases kept
      rfl
    | some a =>
      rw [hfound] at kept
      exact Account.cutAt_shown kept
  cases h with
  | cutNothing found due waits kept => rw [journalOf_singleton]; exact htake found kept
  | cut found due waits kept => rw [journalOf_singleton]; exact htake found kept
  | cutFails found due waits kept =>
    exact absurd kept (hb.take_ne_error _ _)
  | flush drains ripe kept =>
    rw [journalOf_singleton]
    exact Ledger.cutAt_flushed kept
  | flushFails drains ripe kept =>
    exact absurd kept (hb.flush_ne_error _)
  | record | crash =>
    rw [journalOf_singleton, Event.entry, Journal.shown_ofRecord]
    rfl
  | _ => rfl

/-- A run shows the snapshots of the windows that it cuts. -/
theorem run?_cuts {as : List Action} {later : List Event} (h : e.run? as = some (e', later))
    (hb : e.Books told) :
    (e.cutsAlong as).map Cut.snapshot = (journalOf later).shown.map .ok := by
  induction as generalizing e told later with
  | nil =>
    cases h
    rfl
  | cons a rest ih =>
    obtain ⟨next, first, others, hstep, hrest, rfl⟩ := run?_cons_iff.mp h
    have hsteps := steps_of_step? hstep
    rw [cutsAlong, hstep, List.map_append, hsteps.cuts hb, ih hrest (hsteps.books hb),
      journalOf_append, Journal.shown_append, List.map_append]

end Engine

/-! ### Snapshots by client -/

/-- Lists that agree in the snapshots of every client have the same snapshots. -/
theorem perm_of_filter_client {shown reported : List Snapshot}
    (h : ∀ c, shown.filter (·.client = c) = reported.filter (·.client = c)) :
    shown.Perm reported := by
  classical
  -- A snapshot occurs as often as among those of its client.
  have hcount : ∀ (l : List Snapshot) (s : Snapshot),
      l.count s = (l.filter (·.client = s.client)).count s :=
    fun l s => (List.count_filter (by simp)).symm
  rw [List.perm_iff_count]
  intro s
  rw [hcount shown, hcount reported, h]

/-- A client is found once. -/
private theorem sum_ite_client {ids : List ClientId} (hnodup : ids.Nodup) {c : ClientId}
    (hc : c ∈ ids) : (ids.map fun id => if c = id then 1 else 0).sum = 1 := by
  induction ids with
  | nil => cases hc
  | cons id rest ih =>
    rw [List.nodup_cons] at hnodup
    obtain ⟨hid, hrest⟩ := hnodup
    rw [List.map_cons, List.sum_cons]
    by_cases heq : c = id
    · subst heq
      have hzero : rest.map (fun id => if c = id then 1 else 0) = rest.map fun _ => 0 := by
        refine List.map_congr_left fun id hmem => if_neg ?_
        rintro rfl
        exact hid hmem
      rw [if_pos rfl, hzero]
      simp
    · rw [if_neg heq, ih hrest ((List.mem_cons.mp hc).resolve_left heq)]

/-- Snapshots can be counted client by client. -/
theorem sum_length_clients {ids : List ClientId} (hnodup : ids.Nodup) {shown : List Snapshot}
    (hall : ∀ s ∈ shown, s.client ∈ ids) :
    (ids.map fun c => (shown.filter (·.client = c)).length).sum = shown.length := by
  induction shown with
  | nil => simp
  | cons s rest ih =>
    rw [List.forall_mem_cons] at hall
    -- The first snapshot counts for its client, and for no other.
    have hsplit : ∀ c, ((s :: rest).filter (·.client = c)).length =
        (if s.client = c then 1 else 0) + (rest.filter (·.client = c)).length := by
      intro c
      by_cases hc : s.client = c
      · rw [List.filter_cons_of_pos (by simpa using hc), if_pos hc, List.length_cons, Nat.add_comm]
      · rw [List.filter_cons_of_neg (by simpa using hc), if_neg hc, Nat.zero_add]
    simp only [hsplit, List.sum_map_add, ih hall.2, sum_ite_client hnodup hall.1, List.length_cons]
    omega

/-! ### The report -/

namespace Engine

/-- What became of the windows that a run cut. -/
structure Delivered (e : Engine) (events : List Event) (cut : List Cut) (report : RunReport) :
    Prop where
  /-- Every window that was cut is in the report, once. -/
  once : (cut.map Cut.snapshot).Perm (report.snapshots.map .ok)
  /-- Those of one client are in the order in which they were cut. -/
  inOrder : ∀ c, (report.snapshots.filter (·.client = c)).map .ok =
    (cut.filter (·.client = c)).map Cut.snapshot
  /-- The windows of the one flush come last, in ascending order of their clients. -/
  flushedLast : ∃ sent flushed, flushesOf events = [flushed] ∧
    report.snapshots = sent ++ flushed ∧ (flushed.map Snapshot.client).Pairwise (· < ·)
  /-- The reporter is told of the same snapshots, and then of the end. -/
  calls : reportsOf events = report.snapshots.map .reported ++ [.finished report]
  /-- The board shows the last snapshot of every client. -/
  latest : ∀ c, e.latest? c = (report.snapshots.filter (·.client = c)).getLast?
  /-- The totals count the same windows. -/
  windows : report.snapshots.length = (report.totals.map fun entry => entry.2.windows).sum

section Delivered

variable {config : EngineConfig} {profiles : List Profile} {as : List Action} {e : Engine}
  {events : List Event} {report : RunReport}

/-- The report of a run that is over is the one of its end. -/
theorem report?_eq_some (h : e.report? = some report) : ∃ elapsed,
    e.status = .finished report.cleanShutdown elapsed ∧
      report = e.reportAt report.cleanShutdown elapsed := by
  cases hs : e.status with
  | finished clean elapsed =>
    rw [report?, hs] at h
    cases h
    exact ⟨elapsed, rfl, rfl⟩
  | _ => simp only [report?, hs] at h; cases h

/-- When a clean run is over, nothing is left under way. -/
theorem underWay_of_report? (h : (start config profiles).run? as = some (e, events))
    (hreport : e.report? = some report) (hclean : report.cleanShutdown = true) :
    e.status.isClean ∧ e.underWay = e.board := by
  obtain ⟨elapsed, hstatus, -⟩ := report?_eq_some hreport
  rw [hclean] at hstatus
  have hok : e.status.isClean := by rw [hstatus]; rfl
  have hquiet := run?_quiet h hok (by rw [hstatus]; rfl)
  have hdrained := (run?_reports h hok).drained (by rw [hreport]; rfl)
  refine ⟨hok, ?_⟩
  rw [underWay, hdrained, held_of_isQuiet hquiet, hstatus]
  simp [Status.left]

/-- The totals count the snapshots of all clients. -/
theorem sum_windows {l : Ledger} {j : Journal} (h : l.Keeps j) :
    (l.totals.map fun entry => entry.2.windows).sum = j.shown.length := by
  have hnodup : (l.accounts.map Prod.fst).Nodup :=
    h.ascending.imp fun hlt => UInt32.ne_of_lt hlt
  have hall : ∀ s ∈ j.shown, s.client ∈ l.accounts.map Prod.fst := fun s hs => by
    obtain ⟨a, hfound⟩ := h.account_of_shown hs
    exact (Ledger.account?_isSome_iff l s.client).mp (by rw [hfound]; rfl)
  rw [← sum_length_clients hnodup hall, Ledger.totals, List.map_map, List.map_map]
  refine congrArg List.sum (List.map_congr_left fun entry hentry => ?_)
  exact (h.known entry.1 entry.2 (h.ascending.lookup_eq hentry)).windows

/-- **Every window that was cut is reported once.** Whatever the profiles, the room of the channel
    and the order of all cuts, sends and receipts, the report of a run that ended cleanly has the
    snapshots of exactly the windows with activity that were cut, those of each client in the order
    of the cuts and those of the final flush last. The reporter and the board are told the same. -/
theorem delivers (accepted : Engine.check profiles = .ok ())
    (h : (start config profiles).run? as = some (e, events)) (hreport : e.report? = some report)
    (hclean : report.cleanShutdown = true) :
    Delivered e events ((start config profiles).cutsAlong as) report := by
  obtain ⟨hok, hboard⟩ := underWay_of_report? h hreport hclean
  obtain ⟨elapsed, hstatus, hat⟩ := report?_eq_some hreport
  have hsnapshots : report.snapshots = e.board := by rw [hat]; rfl
  have htotals : report.totals = e.ledger.totals := by rw [hat]; rfl
  have horder := run?_order accepted h hok
  obtain ⟨hcalls, -, hlatest⟩ := run?_reports h hok
  have hcuts := run?_cuts h (books_start config profiles)
  -- Nothing is under way but what is on the board, client by client in the order of the cuts.
  have hperm : (journalOf events).shown.Perm e.board := by
    rw [← hboard]
    exact perm_of_filter_client fun c => (horder c).symm
  refine ⟨?_, fun c => ?_, ?_, ?_, fun c => ?_, ?_⟩
  · rw [hcuts, hsnapshots]
    exact hperm.map _
  · rw [filter_snapshots hcuts c, ← horder c, hboard, hsnapshots]
  · have hlast := run?_flushedLast accepted h hok
    rw [FlushedLast, if_pos (by rw [hstatus]; rfl), hboard] at hlast
    rw [hsnapshots]
    exact hlast
  · rw [hcalls, hreport, hsnapshots]
    rfl
  · rw [hsnapshots]
    exact hlatest c
  · rw [htotals, sum_windows (run?_books h).keeps, hsnapshots]
    exact hperm.length_eq.symm

/-- Two clients, the second one with the smaller id. -/
def twoMonitored : List Profile := [Profile.blank 7 "a", Profile.blank 3 "b"]

/-- There is room for one snapshot only, so that one monitor waits until after the stop before it
    can send what it has cut. Both clients are busy again when the ledger is flushed. -/
def crowdedChannel : List Action :=
  [.issue 0, .issue 1, .advance 2000000, .reply 0 (.ok ⟨none⟩), .record 0,
    .reply 1 (.error (EndpointError.timeout "")), .record 1, .advance 10000000000, .issue 0,
    .issue 1, .cut 0, .cut 1, .send 1, .reply 0 (.ok ⟨none⟩), .record 0, .reply 1 (.ok ⟨none⟩),
    .record 1, .stop true, .quit 0, .quit 1, .leave 1, .receive, .send 0, .leave 0, .flush true,
    .receive, .sendFlushed, .receive, .sendFlushed, .receive, .finish]

/-- The channel has one place only, and the second monitor waits until there is room. -/
theorem delivers_crowdedChannel :
    Engine.check twoMonitored = .ok () ∧ ∃ e events report,
      (start ⟨Span.ofMillis 5000, 0, 1⟩ twoMonitored).run? crowdedChannel = some (e, events) ∧
        e.report? = some report ∧ report.cleanShutdown = true ∧
          report.snapshots.map Snapshot.client = [3, 7, 3, 7] ∧
            Delivered e events
              ((start ⟨Span.ofMillis 5000, 0, 1⟩ twoMonitored).cutsAlong crowdedChannel)
              report := by
  have accepted : Engine.check twoMonitored = .ok () := by
    rw [Engine.check, validateAll_ok_iff]
    refine ⟨?_, by decide⟩
    intro p hp
    rw [Profile.validate_ok_iff]
    revert p
    decide +kernel
  -- The run and its report are computed. That everything was delivered follows in general.
  have hends : ((start ⟨Span.ofMillis 5000, 0, 1⟩ twoMonitored).run? crowdedChannel).any
      (fun result => result.1.report?.any fun report => report.cleanShutdown &&
        report.snapshots.map Snapshot.client = [3, 7, 3, 7]) := by decide +kernel
  obtain ⟨⟨e, events⟩, h, hends⟩ := (Option.any_eq_true _ _).mp hends
  obtain ⟨report, hreport, hends⟩ := (Option.any_eq_true _ _).mp hends
  rw [Bool.and_eq_true, decide_eq_true_eq] at hends
  obtain ⟨hclean, hclients⟩ := hends
  exact ⟨accepted, e, events, report, h, hreport, hclean, hclients,
    delivers accepted h hreport hclean⟩

end Delivered

end Engine

end ClosedLoop
