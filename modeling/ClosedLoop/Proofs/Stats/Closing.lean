import ClosedLoop.Proofs.Stats.Tiling

namespace ClosedLoop

/-!
# The last flush

A flush that completes shows every window with activity, and leaves a ledger that takes nothing in
and has nothing to give out any more.

* `Ledger.active` — the clients whose open window has seen activity;
* `Ledger.active_of_flush` — a flush shows exactly these;
* `Ledger.Spent` — closed and without activity: so a flush leaves the ledger, and so it stays;
* `Operation.Idle` — an operation that takes nothing in and gives nothing out, by its answer;
* `Replay.flush_is_final` — **after a flush nothing happens any more**, whatever is asked for.
-/

/-- The clients whose open window has seen activity, in the order of the accounts. -/
def Ledger.active (l : Ledger) : List ClientId :=
  (l.accounts.filter fun entry => !entry.2.window.isEmpty).map Prod.fst

/-- Closed, and no open window has seen activity. -/
structure Ledger.Spent (l : Ledger) : Prop where
  closed : l.closed = true
  inactive : ∀ entry ∈ l.accounts, entry.2.window.isEmpty = true

/-- An operation that takes nothing in and gives nothing out: a record is refused, a cut has no
snapshot and a flush an empty list of them. Time may pass. -/
def Operation.Idle : Operation → Answer → Prop
  | .advance _, .advanced _ => True
  | .record _, .recorded result => result = .ok false
  | .recordCompleted _, .recorded result => result = .ok false
  | .take _, .taken result => result = .ok none
  | .flush, .flushed result => result = .ok []
  | _, _ => False

/-! ### Windows without activity -/

namespace Account

variable {a : Account} {client : ClientId} {now : Span}

/-- A new window is empty. -/
theorem isEmpty_renew (a : Account) (now : Span) : (a.renew now).window.isEmpty = true := by
  rw [window_renew]
  rfl

/-- A window without activity leaves no trace in the totals. -/
theorem totals_renew (h : a.window.isEmpty = true) : (a.renew now).totals = a.totals := by
  rw [renew_of_empty h]

/-- The cut of an empty window shows nothing. -/
theorem cut_of_empty (h : a.window.isEmpty = true) : (a.cut client now).2 = .ok none := by
  rw [cut_eq, if_pos h]

/-- A cut that does not fail shows its client exactly if the window has seen activity. -/
theorem clients_of_cut {shown : Option Snapshot} (hcut : (a.cut client now).2 = .ok shown) :
    shown.toList.map Snapshot.client = if a.window.isEmpty then [] else [client] := by
  by_cases hempty : a.window.isEmpty
  · rw [cut_of_empty hempty] at hcut
    cases hcut
    rw [if_pos hempty]
    rfl
  · rw [cut_eq, if_neg hempty] at hcut
    -- The window is not empty, so it is closed, and the snapshot names the client.
    cases hclose : a.window.close client a.name now with
    | error fault => rw [hclose] at hcut; cases hcut
    | ok s =>
      obtain ⟨mean, -, rfl⟩ := Window.close_ok hclose
      rw [hclose] at hcut
      cases hcut
      rw [if_neg hempty]
      rfl

end Account

namespace Accounts

variable {as : Accounts} {now : Span}

/-- Cutting all windows shows the clients with activity. -/
theorem clients_of_cutAll {shown : List Snapshot} (h : (cutAll now as).2 = .ok shown) :
    shown.map Snapshot.client =
      (as.filter fun entry => !entry.2.window.isEmpty).map Prod.fst := by
  obtain ⟨-, rfl, hcuts⟩ := cutAll_ok h
  clear h
  induction as with
  | nil => rfl
  | cons entry rest ih =>
    obtain ⟨hfirst, hrest⟩ := List.forall_mem_cons.mp hcuts
    rw [List.flatMap_cons, List.map_append, ih hrest, Account.clients_of_cut hfirst,
      List.filter_cons]
    cases entry.2.window.isEmpty <;> rfl

/-- Replacing one account by one with the same totals changes no totals. -/
theorem totals_modify (id : ClientId) {f : Account → Account}
    (hf : ∀ entry ∈ as, (f entry.2).totals = entry.2.totals) :
    ((as.modify id f).map fun entry => (entry.1, entry.2.totals)) =
      as.map fun entry => (entry.1, entry.2.totals) := by
  induction as with
  | nil => rfl
  | cons entry rest ih =>
    obtain ⟨hfirst, hrest⟩ := List.forall_mem_cons.mp hf
    rw [modify]
    split
    · rw [List.map_cons, List.map_cons, hfirst]
    · rw [List.map_cons, List.map_cons, ih hrest]

end Accounts

/-! ### Ledgers without activity -/

namespace Ledger

variable {l : Ledger} {now : Span} {shown : List Snapshot}

/-- A flush shows the clients with activity, and no others. -/
theorem active_of_flush (hok : (l.flush now).2 = .ok shown) :
    shown.map Snapshot.client = l.active :=
  Accounts.clients_of_cutAll hok

/-- The active clients are those whose windows have seen something. -/
theorem mem_active (asc : l.accounts.Ascending) {c : ClientId} :
    c ∈ l.active ↔ ∃ a, l.account? c = some a ∧ a.window.isEmpty = false := by
  constructor
  · intro h
    obtain ⟨⟨id, a⟩, hentry, rfl⟩ := List.mem_map.mp h
    obtain ⟨hmem, hactive⟩ := List.mem_filter.mp hentry
    exact ⟨a, asc.lookup_eq hmem, by simpa using hactive⟩
  · rintro ⟨a, ha, hactive⟩
    refine List.mem_map.mpr ⟨(c, a), List.mem_filter.mpr ⟨Accounts.mem_of_lookup ha, ?_⟩, rfl⟩
    simpa using hactive

/-- A flush that completes leaves nothing to show. -/
theorem spent_flush (hok : (l.flush now).2 = .ok shown) : (l.flush now).1.Spent where
  closed := rfl
  inactive entry hentry := by
    rw [accounts_flush hok] at hentry
    obtain ⟨e, -, rfl⟩ := List.mem_map.mp hentry
    exact e.2.isEmpty_renew now

/-- A ledger without activity refuses every record. -/
theorem Spent.record (h : l.Spent) (r : Record) : l.record r = (l, .ok false) := by
  rw [Ledger.record, if_pos h.closed]

/-- A cut finds nothing in a ledger without activity, and leaves it so, with the same totals. -/
theorem Spent.take (h : l.Spent) (now : Span) (c : ClientId) :
    (l.take now c).1.Spent ∧ (l.take now c).1.totals = l.totals ∧
      (l.take now c).2 = .ok none := by
  unfold Ledger.take
  cases hfound : l.account? c with
  | none => exact ⟨h, rfl, rfl⟩
  | some a =>
    refine ⟨⟨h.closed, ?_⟩, ?_, ?_⟩
    · exact Accounts.forall_modify (P := fun a => a.window.isEmpty = true) h.inactive c
        fun b => b.isEmpty_renew now
    · exact Accounts.totals_modify c fun entry hentry =>
        Account.totals_renew (h.inactive entry hentry)
    · exact Account.cut_of_empty (h.inactive (c, a) (Accounts.mem_of_lookup hfound))

/-- A further flush shows nothing and leaves the totals as they are. -/
theorem Spent.flush (h : l.Spent) (now : Span) :
    (l.flush now).1.Spent ∧ (l.flush now).1.totals = l.totals ∧ (l.flush now).2 = .ok [] := by
  -- No window has seen anything, so each can be cut and none is shown.
  obtain ⟨shown, hok⟩ : ∃ shown, (l.flush now).2 = .ok shown :=
    Accounts.cutAll_of_cut_ok fun entry hentry =>
      ⟨none, Account.cut_of_empty (h.inactive entry hentry)⟩
  have hnone : l.active = [] := by
    rw [active, List.filter_eq_nil_iff.mpr, List.map_nil]
    intro entry hentry
    simp [h.inactive entry hentry]
  refine ⟨spent_flush hok, ?_, ?_⟩
  · rw [totals, totals, accounts_flush hok, List.map_map]
    refine List.map_congr_left fun entry hentry => ?_
    exact congrArg (Prod.mk entry.1) (Account.totals_renew (h.inactive entry hentry))
  · have hshown := active_of_flush hok
    rw [hnone] at hshown
    rw [hok, List.map_eq_nil_iff.mp hshown]

end Ledger

namespace Replay

variable {s : Replay}

/-! ### After the flush -/

/-- An operation on a ledger without activity is idle and changes no totals. -/
theorem spent_perform (h : s.ledger.Spent) (op : Operation) :
    (s.perform op).1.ledger.Spent ∧ (s.perform op).1.ledger.totals = s.ledger.totals ∧
      op.Idle (s.perform op).2 := by
  cases op with
  | advance d =>
    -- The clock may go on. Nothing else changes.
    obtain ⟨hledger, result, hanswer⟩ := s.perform_advance d
    rw [hledger, hanswer]
    exact ⟨h, rfl, trivial⟩
  | record r =>
    rw [perform_record, h.record r]
    exact ⟨h, rfl, rfl⟩
  | recordCompleted r =>
    rw [perform_recordCompleted, h.record (r.completedBy s.now)]
    exact ⟨h, rfl, rfl⟩
  | take client => exact h.take s.now client
  | flush => exact h.flush s.now

/-- Every sequence of operations is idle on a spent ledger. -/
theorem spent_performAll (h : s.ledger.Spent) (ops : List Operation) :
    (s.performAll ops).1.ledger.Spent ∧ (s.performAll ops).1.ledger.totals = s.ledger.totals ∧
      List.Forall₂ Operation.Idle ops (s.performAll ops).2 := by
  induction ops generalizing s with
  | nil => exact ⟨h, rfl, .nil⟩
  | cons op rest ih =>
    obtain ⟨hspent, htotals, hidle⟩ := spent_perform h op
    obtain ⟨hlast, hsame, hothers⟩ := ih hspent
    exact ⟨hlast, hsame.trans htotals, .cons hidle hothers⟩

/-! ### Activity since the last cut -/

/-- Nothing happens to the window of a client without an account. -/
theorem event?_of_unknown {c : ClientId} (h : s.ledger.account? c = none) (op : Operation) :
    s.event? c op = none := by
  have hcounting (e : Receipt) : s.counting c e = none := by
    -- A record of an unknown client is refused.
    refine if_neg fun ⟨hclient, hcounts⟩ => ?_
    have hunknown : s.ledger.account? e.counted.client = none := by
      rw [e.client_counted, hclient, h]
    have hrefused : (s.ledger.record e.counted).2 = .ok false := by
      rw [Ledger.record, hunknown]
      split <;> rfl
    rw [Ledger.counts, hrefused] at hcounts
    cases hcounts
  cases op with
  | advance d => rfl
  | record r => exact hcounting _
  | recordCompleted r => exact hcounting _
  | take client =>
    refine if_neg fun hknown => ?_
    rw [h] at hknown
    cases hknown.2
  | flush =>
    refine if_neg fun hreached => ?_
    obtain ⟨a, ha⟩ := Accounts.lookup_of_reaches hreached
    rw [show s.ledger.accounts.lookup c = none from h] at ha
    cases ha

/-- Nothing happens to an unknown client in a sequence of operations. -/
theorem events_of_unknown {c : ClientId} (h : s.ledger.account? c = none)
    (ops : List Operation) : s.events c ops = [] := by
  induction ops generalizing s with
  | nil => rfl
  | cons op rest ih =>
    have hnext : (s.perform op).1.ledger.account? c = none := by
      rw [← Option.not_isSome_iff_eq_none, Ledger.account?_isSome_iff] at h ⊢
      rwa [clients_perform]
    rw [events, event?_of_unknown h op, ih hnext]
    rfl

/-- The clients with activity are those with a record counted since their last cut. -/
theorem mem_active_performAll (profiles : List Profile) (begun : Span) (ops : List Operation)
    (c : ClientId) :
    c ∈ ((openedAt begun profiles).performAll ops).1.ledger.active ↔
      (Stretch.last ⟨begun, []⟩ ((openedAt begun profiles).events c ops)).receipts ≠ [] := by
  have hsees := (sees_openedAt begun profiles c).performAll ops
  rw [Ledger.mem_active hsees.ascending]
  constructor
  · rintro ⟨a, ha, hactive⟩ hnone
    rw [hsees.window a ha, Stretch.isEmpty_window, hnone] at hactive
    cases hactive
  · intro hcounted
    cases hfound : ((openedAt begun profiles).performAll ops).1.ledger.account? c with
    | none =>
      -- A client without an account has none from the beginning, and so no events.
      have hunknown : (openedAt begun profiles).ledger.account? c = none := by
        rw [← Option.not_isSome_iff_eq_none, Ledger.account?_isSome_iff] at hfound ⊢
        rwa [clients_performAll] at hfound
      rw [events_of_unknown hunknown] at hcounted
      exact absurd rfl hcounted
    | some a =>
      refine ⟨a, rfl, ?_⟩
      rw [hsees.window a hfound, Stretch.isEmpty_window]
      simpa using hcounted

/-- **The last flush is final and exhaustive.** A flush that completes, after any operations, shows
each client with a record counted since its last cut once, in ascending order, and no other client.
Whatever is asked for later, the ledger stays closed with the same totals and every operation is
idle. -/
theorem flush_is_final {profiles : List Profile} {begun : Span} {ops : List Operation}
    (hs : ((openedAt begun profiles).performAll ops).1 = s) {shown : List Snapshot}
    (hflush : (s.perform .flush).2 = .flushed (.ok shown)) (later : List Operation) :
    (shown.map Snapshot.client = s.ledger.active ∧ s.ledger.active.Pairwise (· < ·) ∧
      ∀ c, c ∈ s.ledger.active ↔
        (Stretch.last ⟨begun, []⟩ ((openedAt begun profiles).events c ops)).receipts ≠ []) ∧
    ((s.perform .flush).1.performAll later).1.ledger.closed = true ∧
    ((s.perform .flush).1.performAll later).1.ledger.totals =
      (s.perform .flush).1.ledger.totals ∧
    List.Forall₂ Operation.Idle later ((s.perform .flush).1.performAll later).2 := by
  have hok : (s.ledger.flush s.now).2 = .ok shown := by
    rw [perform_flush] at hflush
    exact Answer.flushed.inj hflush
  have asc : s.ledger.accounts.Ascending :=
    hs ▸ ascending_performAll (Ledger.ascending_openFor profiles begun) ops
  -- The clients that are shown are the active ones, in the order of the accounts.
  have hclients : shown.map Snapshot.client = s.ledger.active := Ledger.active_of_flush hok
  have hascending : (shown.map Snapshot.client).Pairwise (· < ·) := Ledger.flush_ascending asc hok
  have hflushed : (s.perform .flush).1.ledger.Spent := Ledger.spent_flush hok
  obtain ⟨hspent, htotals, hidle⟩ := spent_performAll hflushed later
  refine ⟨⟨hclients, hclients ▸ hascending, fun c => ?_⟩, hspent.closed, htotals, hidle⟩
  rw [← hs]
  exact mem_active_performAll profiles begun ops c

/-- Two clients, of which one has seen activity since its cut. -/
def activeOnce : Replay :=
  ((openedAt Span.zero twoClients).performAll (cutThenFlush.take 6)).1

/-- After the flush all is asked for again. -/
theorem flush_is_final_activeOnce :
    ∃ shown, (activeOnce.perform .flush).2 = .flushed (.ok shown) ∧
      shown.map Snapshot.client = [7] ∧
      ((activeOnce.perform .flush).1.performAll cutThenFlush).1.ledger.closed = true ∧
      List.Forall₂ Operation.Idle cutThenFlush
        ((activeOnce.perform .flush).1.performAll cutThenFlush).2 := by
  have hclean : (activeOnce.perform .flush).2.fault? = none := by decide +kernel
  have hactive : activeOnce.ledger.active = [7] := by decide +kernel
  obtain ⟨shown, hflush⟩ := flushed_of_clean hclean
  obtain ⟨⟨hclients, -, -⟩, hclosed, -, hidle⟩ :=
    flush_is_final (s := activeOnce) rfl hflush cutThenFlush
  exact ⟨shown, hflush, hclients.trans hactive, hclosed, hidle⟩

end Replay

end ClosedLoop
