import ClosedLoop.Proofs.Stats.Tiling

namespace ClosedLoop

/-!
# Clients do not influence each other

What the operations answer about a client is what they would answer if the ledger had no other
accounts and no other client were ever named.

* `Operation.concerns`, `answersAbout` — the operations that one client can notice, and what they
  answer about it;
* `Ledger.only`, `Replay.only` — the ledger with the account of one client;
* `Replay.only_perform`, `Replay.only_perform_of_foreign` — an operation that concerns the client
  does the same there, and any other one does nothing there;
* `Replay.clients_apart` — **answers about a client do not depend on the operations for others**.
-/

/-- Can the client notice the operation? The passing of time and the flush concern every client. -/
def Operation.concerns (c : ClientId) : Operation → Bool
  | .advance _ => true
  | .record r => r.client = c
  | .recordCompleted r => r.client = c
  | .take client => client = c
  | .flush => true

/-- What an answer says about a client: of a flush its own snapshots only. -/
def Answer.about (c : ClientId) : Answer → Answer
  | .flushed (.ok shown) => .flushed (.ok (shown.filter (·.client = c)))
  | answer => answer

/-- What the operations that concern a client have answered about it. -/
def answersAbout (c : ClientId) (steps : List (Operation × Answer)) : List Answer :=
  (steps.filter (·.1.concerns c)).map (·.2.about c)

namespace Ledger

/-- The ledger with the account of one client, if it has one. -/
def only (l : Ledger) (c : ClientId) : Ledger :=
  { l with accounts := ((l.account? c).map fun a => (c, a)).toList }

variable {l : Ledger} {c : ClientId}

/-- The account of the client is kept. -/
theorem account?_only (l : Ledger) (c : ClientId) : (l.only c).account? c = l.account? c := by
  rw [account?, only]
  cases l.account? c with
  | none => rfl
  | some a => exact (Accounts.lookup_cons_eq c c a []).trans (if_pos rfl)

/-- Only the account of the client and the mark of the end count. -/
theorem only_eq {m : Ledger} (hclosed : l.closed = m.closed)
    (haccount : l.account? c = m.account? c) : l.only c = m.only c := by
  rw [only, only, hclosed, haccount]

/-- A change of the client is a change of what is kept. -/
theorem only_modify (f : Account → Account) : (l.modify c f).only c = (l.only c).modify c f := by
  rw [only, account?_modify, if_pos rfl, modify, only]
  cases l.account? c with
  | none => rfl
  | some a => simp [Accounts.modify, modify]

/-- A change of another client is not. -/
theorem only_modify_of_ne {id : ClientId} (h : id ≠ c) (f : Account → Account) :
    (l.modify id f).only c = l.only c := by
  refine only_eq rfl ?_
  rw [account?_modify, if_neg h.symm]

/-! ### Single operations -/

/-- A record of the client has the same effect and the same answer. -/
theorem only_record {r : Record} (h : r.client = c) :
    (l.record r).1.only c = ((l.only c).record r).1 ∧
      (l.record r).2 = ((l.only c).record r).2 := by
  subst h
  -- One account is looked up on both sides.
  have hsame : (l.only r.client).closed = l.closed := rfl
  unfold record
  rw [account?_only, hsame]
  by_cases hclosed : l.closed
  · rw [if_pos hclosed, if_pos hclosed]
    exact ⟨rfl, rfl⟩
  · rw [if_neg hclosed, if_neg hclosed]
    cases l.account? r.client with
    | none => exact ⟨rfl, rfl⟩
    | some a => exact ⟨only_modify _, rfl⟩

/-- A record of another client leaves the accounts of this one alone. -/
theorem only_record_of_ne {r : Record} (h : r.client ≠ c) : (l.record r).1.only c = l.only c := by
  unfold record
  split
  · rfl
  · split
    · rfl
    · exact only_modify_of_ne h _

/-- A cut of the window of the client shows the same. -/
theorem only_take (now : Span) : (l.take now c).1.only c = ((l.only c).take now c).1 ∧
    (l.take now c).2 = ((l.only c).take now c).2 := by
  unfold take
  rw [account?_only]
  cases l.account? c with
  | none => exact ⟨rfl, rfl⟩
  | some a => exact ⟨only_modify _, rfl⟩

/-- A cut of another client changes nothing for the client. -/
theorem only_take_of_ne {client : ClientId} (h : client ≠ c) (now : Span) :
    (l.take now client).1.only c = l.only c := by
  unfold take
  split
  · rfl
  · exact only_modify_of_ne h _

/-- A flush without a fault shows of the client what a flush of its account alone shows. -/
theorem only_flush (asc : l.accounts.Ascending) {now : Span} {shown : List Snapshot}
    (hok : (l.flush now).2 = .ok shown) :
    (l.flush now).1.only c = ((l.only c).flush now).1 ∧
      ((l.only c).flush now).2 = .ok (shown.filter (·.client = c)) := by
  have hcut : (l.accounts.cutAll now).2 = .ok shown := hok
  obtain ⟨-, hshown, hcuts⟩ := Accounts.cutAll_ok hcut
  have hown := @Accounts.filter_shownBy now _ asc c
  rw [← hshown, show l.accounts.lookup c = l.account? c from rfl] at hown
  rw [only, account?_flush hok, only]
  cases ha : l.account? c with
  | none =>
    rw [ha] at hown
    rw [hown]
    exact ⟨rfl, rfl⟩
  | some a =>
    -- The flush of one account is its cut, which cannot fail here since the whole flush did not.
    have hsingle := Accounts.cutAll_cons_of_ok [] (hcuts (c, a) (Accounts.mem_of_lookup ha))
    rw [ha] at hown
    rw [hown]
    show _ = Ledger.mk (Accounts.cutAll now [(c, a)]).1 true ∧
      (Accounts.cutAll now [(c, a)]).2 = _
    rw [hsingle]
    exact ⟨rfl, congrArg Except.ok (List.append_nil _)⟩

end Ledger

namespace Replay

/-- The ledger with the account of one client, at the same time. -/
def only (s : Replay) (c : ClientId) : Replay := ⟨s.now, s.ledger.only c⟩

variable {s : Replay} {c : ClientId} {op : Operation}

/-! ### Single operations -/

/-- An operation that concerns a client does and answers what it would if there were no other. -/
theorem only_perform (asc : s.ledger.accounts.Ascending) (hown : op.concerns c = true)
    (hclean : (s.perform op).2.fault? = none) :
    (s.perform op).1.only c = ((s.only c).perform op).1 ∧
      (s.perform op).2.about c = ((s.only c).perform op).2 := by
  -- All that an operation on the client looks at is the same without the others.
  cases op with
  | advance d =>
    have hnow : (s.only c).now = s.now := rfl
    simp only [perform, hnow]
    cases Clock.after s.now.nanos d with
    | ok t => exact ⟨rfl, rfl⟩
    | error fault => exact ⟨rfl, rfl⟩
  | record r =>
    obtain ⟨hledger, hanswer⟩ := Ledger.only_record (l := s.ledger) (of_decide_eq_true hown)
    exact ⟨congrArg (Replay.mk s.now) hledger, congrArg Answer.recorded hanswer⟩
  | recordCompleted r =>
    have hclient : (r.completedBy s.now).client = c := of_decide_eq_true hown
    obtain ⟨hledger, hanswer⟩ := Ledger.only_record (l := s.ledger) hclient
    exact ⟨congrArg (Replay.mk s.now) hledger, congrArg Answer.recorded hanswer⟩
  | take client =>
    obtain rfl : client = c := of_decide_eq_true hown
    obtain ⟨hledger, hanswer⟩ := Ledger.only_take (l := s.ledger) (c := client) s.now
    exact ⟨congrArg (Replay.mk s.now) hledger, congrArg Answer.taken hanswer⟩
  | flush =>
    obtain ⟨shown, hflush⟩ := flushed_of_clean hclean
    obtain ⟨hledger, hanswer⟩ := Ledger.only_flush (c := c) asc (Answer.flushed.inj hflush)
    refine ⟨congrArg (Replay.mk s.now) hledger, ?_⟩
    rw [hflush]
    exact (congrArg Answer.flushed hanswer).symm

/-- Any other operation does nothing that the client can notice. -/
theorem only_perform_of_foreign (hforeign : op.concerns c = false) :
    (s.perform op).1.only c = s.only c := by
  cases op with
  | advance d => cases hforeign
  | record r =>
    exact congrArg (Replay.mk s.now) (Ledger.only_record_of_ne (of_decide_eq_false hforeign))
  | recordCompleted r =>
    have hclient : (r.completedBy s.now).client ≠ c := of_decide_eq_false hforeign
    exact congrArg (Replay.mk s.now) (Ledger.only_record_of_ne hclient)
  | take client =>
    exact congrArg (Replay.mk s.now)
      (Ledger.only_take_of_ne (of_decide_eq_false hforeign) s.now)
  | flush => cases hforeign

/-! ### Sequences of operations -/

/-- Operations do and answer for a client what those that concern it would alone. -/
theorem only_performAll (asc : s.ledger.accounts.Ascending) (c : ClientId) (ops : List Operation)
    (hclean : ∀ answer ∈ (s.performAll ops).2, answer.fault? = none) :
    (s.performAll ops).1.only c = ((s.only c).performAll (ops.filter (·.concerns c))).1 ∧
      answersAbout c (ops.zip (s.performAll ops).2) =
        ((s.only c).performAll (ops.filter (·.concerns c))).2 := by
  induction ops generalizing s with
  | nil => exact ⟨rfl, rfl⟩
  | cons op rest ih =>
    obtain ⟨hfirst, hrest⟩ := List.forall_mem_cons.mp hclean
    obtain ⟨hlast, hanswers⟩ := ih (ascending_perform asc op) hrest
    have hzip : (op :: rest).zip (s.performAll (op :: rest)).2 =
        (op, (s.perform op).2) :: rest.zip ((s.perform op).1.performAll rest).2 := rfl
    rw [hzip, answersAbout, List.filter_cons, List.filter_cons]
    cases hconcerns : op.concerns c with
    | false =>
      -- The filtered sequence skips the operation, and so does the view of the client.
      rw [only_perform_of_foreign hconcerns] at hlast hanswers
      exact ⟨hlast, hanswers⟩
    | true =>
      obtain ⟨hnext, hanswer⟩ := only_perform asc hconcerns hfirst
      rw [hnext] at hlast hanswers
      refine ⟨hlast, ?_⟩
      rw [if_pos rfl, if_pos rfl, List.map_cons, hanswer]
      exact congrArg (_ :: ·) hanswers

/-- **Clients do not influence each other's statistics.** Two sequences of operations without a
fault, on ledgers for the same profiles, that agree in the operations which concern a client have
the same answers about it and the same totals for it, whatever is done for other clients. -/
theorem clients_apart (profiles : List Profile) (begun : Span) (c : ClientId)
    {ops others : List Operation}
    (hagree : ops.filter (·.concerns c) = others.filter (·.concerns c))
    (hops : ∀ answer ∈ ((openedAt begun profiles).performAll ops).2, answer.fault? = none)
    (hothers : ∀ answer ∈ ((openedAt begun profiles).performAll others).2,
      answer.fault? = none) :
    answersAbout c (ops.zip ((openedAt begun profiles).performAll ops).2) =
        answersAbout c (others.zip ((openedAt begun profiles).performAll others).2) ∧
      ((openedAt begun profiles).performAll ops).1.ledger.totals.lookup c =
        ((openedAt begun profiles).performAll others).1.ledger.totals.lookup c := by
  have asc := Ledger.ascending_openFor profiles begun
  obtain ⟨hlast, hanswers⟩ := only_performAll (s := openedAt begun profiles) asc c ops hops
  obtain ⟨hlast', hanswers'⟩ :=
    only_performAll (s := openedAt begun profiles) asc c others hothers
  -- Both sequences are compared with the operations that concern the client alone.
  rw [← hagree] at hlast' hanswers'
  refine ⟨hanswers.trans hanswers'.symm, ?_⟩
  have htotals (l : Ledger) : l.totals.lookup c = ((l.only c).account? c).map Account.totals := by
    rw [Ledger.account?_only]
    exact Accounts.lookup_map c (fun _ a => a.totals) l.accounts
  have hledgers := congrArg Replay.ledger (hlast.trans hlast'.symm)
  rw [htotals, htotals]
  exact congrArg (fun l => (l.account? c).map Account.totals) hledgers

/-- The same operations of client 7, each followed by records and cuts of a second client and of one
without an account. -/
def cutThenFlushAmongOthers : List Operation :=
  cutThenFlush.flatMap fun op =>
    [op, .record ⟨8, 0, Span.zero, Span.ofMillis 5, 1, 1, .failure⟩, .take 8,
      .recordCompleted ⟨9, 0, Span.zero, Span.zero, 1, 1, .success⟩, .take 9]

/-- A cut and a flush among operations of another client. -/
theorem clients_apart_cutThenFlush :
    answersAbout 7 (cutThenFlush.zip
        ((openedAt Span.zero twoClients).performAll cutThenFlush).2) =
      answersAbout 7 (cutThenFlushAmongOthers.zip
        ((openedAt Span.zero twoClients).performAll cutThenFlushAmongOthers).2) ∧
    ((openedAt Span.zero twoClients).performAll cutThenFlush).1.ledger.totals.lookup 7 =
      ((openedAt Span.zero twoClients).performAll
        cutThenFlushAmongOthers).1.ledger.totals.lookup 7 :=
  clients_apart twoClients Span.zero 7 rfl (by decide +kernel) (by decide +kernel)

end Replay

end ClosedLoop
