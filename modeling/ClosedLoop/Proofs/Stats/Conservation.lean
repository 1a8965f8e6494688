import ClosedLoop.Proofs.Stats.Books
import ClosedLoop.Stats.Replay

namespace ClosedLoop

/-!
# Conservation of records

Whatever operations are performed on a ledger, in whatever order, every record that was accepted for
a client is in exactly one of its snapshots or in its open window.

* `Journal.Covers` — a journal answers to operations and what they answered;
* `Replay.perform_keeps`, `Replay.performAll_keeps` — one operation and a sequence of them keep the
  books;
* `Replay.conserves` — **the counters of every client add up**, at every point of a sequence of
  operations without a fault.
-/

/-- Was this a record of the client that was counted? -/
def Operation.accepts (client : ClientId) : Operation → Answer → Bool
  | .record r, .recorded (.ok true) => r.client = client
  | .recordCompleted r, .recorded (.ok true) => r.client = client
  | _, _ => false

/-- How many records of a client the operations have brought in. -/
def acceptedOf (client : ClientId) (steps : List (Operation × Answer)) : Nat :=
  steps.countP fun (op, answer) => op.accepts client answer

/-- The snapshots of a client that the operations have given out. -/
def shownOf (client : ClientId) (answers : List Answer) : List Snapshot :=
  (answers.flatMap Answer.snapshots).filter (·.client = client)

/-- What the counters of an account owe to the records accepted for its client and the snapshots
    given out. -/
structure Account.Conserves (a : Account) (accepted : Nat) (shown : List Snapshot) : Prop where
  /-- All four counters are those of the snapshots and of the open window together. -/
  tally : a.totals.tally = (shown.map Snapshot.tally).sum + a.window.tally
  requests : a.totals.tally.requests = accepted
  windows : a.totals.windows = shown.length
  maxLatency : a.totals.maxLatency = Span.peak (shown.map (·.latency.max)) a.window.latencyMax
  shown : ∀ s ∈ shown, s.Sound

/-- An account that keeps a journal without losses conserves what the journal shows. -/
theorem Account.Keeps.addsUp {a : Account} {j : Journal} (h : a.Keeps j) (hlost : j.lost = []) :
    a.Conserves j.counted.length j.shown where
  tally := by
    rw [h.totals, h.window, hlost, tallyOf_nil, add_zero]
  requests := by
    rw [h.totals, requests_tallyOf]
  windows := h.windows
  maxLatency := h.maxLatency
  shown := h.shown

/-! ### Operations and their entries -/

/-- A journal answers to operations: nothing was lost, the snapshots are those given out, and the
    counted records those accepted. -/
structure Journal.Covers (j : Journal) (steps : List (Operation × Answer)) : Prop where
  lost : j.lost = []
  shown : j.shown = steps.flatMap (·.2.snapshots)
  counted : ∀ c, (j.of c).counted.length = acceptedOf c steps

namespace Journal.Covers

/-- Nothing covers nothing. -/
theorem nil : Journal.empty.Covers [] := ⟨rfl, rfl, fun _ => rfl⟩

/-- Journals of two sequences cover both. -/
theorem append {i j : Journal} {steps later : List (Operation × Answer)} (hi : i.Covers steps)
    (hj : j.Covers later) : (i ++ j).Covers (steps ++ later) where
  lost := by rw [Journal.lost_append, hi.lost, hj.lost, List.append_nil]
  shown := by rw [Journal.shown_append, hi.shown, hj.shown, List.flatMap_append]
  counted c := by
    rw [Journal.of_append, Journal.counted_append, List.length_append, hi.counted, hj.counted,
      acceptedOf, acceptedOf, acceptedOf, List.countP_append]

/-- Only the snapshots matter for operations that bring no record. -/
theorem ofSnapshots {op : Operation} {answer : Answer} {shown : List Snapshot}
    (hshown : answer.snapshots = shown) (hnone : ∀ c, op.accepts c answer = false) :
    (Journal.ofSnapshots shown).Covers [(op, answer)] where
  lost := rfl
  shown := by simp [hshown]
  counted c := by
    simp [acceptedOf, hnone c, Journal.of_ofSnapshots]

/-- A record is covered by its entry if it was taken in or refused. -/
theorem ofRecord {op : Operation} {r : Record} {taken : Bool}
    (haccepts : ∀ c, op.accepts c (.recorded (.ok taken)) = (taken && decide (r.client = c))) :
    (Journal.ofRecord r (.ok taken)).Covers [(op, .recorded (.ok taken))] where
  lost := by cases taken <;> rfl
  shown := by cases taken <;> rfl
  counted c := by
    rw [Journal.of_ofRecord]
    by_cases hc : c = r.client
    · subst hc
      cases taken <;> simp [acceptedOf, haccepts, Journal.ofRecord, Journal.empty]
    · have hne : ¬r.client = c := fun h => hc h.symm
      simp [acceptedOf, haccepts, hc, hne, Journal.empty]

end Journal.Covers

namespace Replay

/-- What a record does. -/
theorem perform_record (s : Replay) (r : Record) : s.perform (.record r) =
    ({ s with ledger := (s.ledger.record r).1 }, .recorded (s.ledger.record r).2) := rfl

/-- What a record that completes now does. -/
theorem perform_recordCompleted (s : Replay) (r : Record) : s.perform (.recordCompleted r) =
    ({ s with ledger := (s.ledger.record (r.completedBy s.now)).1 },
      .recorded (s.ledger.record (r.completedBy s.now)).2) := rfl

/-- What the cut of a client does. -/
theorem perform_take (s : Replay) (client : ClientId) : s.perform (.take client) =
    ({ s with ledger := (s.ledger.take s.now client).1 },
      .taken (s.ledger.take s.now client).2) := rfl

/-- What a flush does. -/
theorem perform_flush (s : Replay) : s.perform .flush =
    ({ s with ledger := (s.ledger.flush s.now).1 }, .flushed (s.ledger.flush s.now).2) := rfl

/-- A flush without a fault gives out a list of snapshots. -/
theorem flushed_of_clean {s : Replay} (hclean : (s.perform .flush).2.fault? = none) :
    ∃ shown, (s.perform .flush).2 = .flushed (.ok shown) := by
  rw [perform_flush] at hclean ⊢
  cases hresult : (s.ledger.flush s.now).2 with
  | error fault => rw [hresult] at hclean; cases hclean
  | ok shown => exact ⟨shown, rfl⟩

/-- Time does nothing to the ledger. -/
theorem perform_advance (s : Replay) (d : Span) :
    (s.perform (.advance d)).1.ledger = s.ledger ∧
      ∃ result, (s.perform (.advance d)).2 = .advanced result := by
  unfold perform
  cases hafter : Clock.after s.now.nanos d with
  | ok t => exact ⟨by simp only [hafter], .ok (), by simp only [hafter]⟩
  | error fault => exact ⟨by simp only [hafter], .error fault, by simp only [hafter]⟩

/-- One operation without a fault keeps the books, with an entry that answers to it. -/
theorem perform_keeps {s : Replay} {j : Journal} (h : s.ledger.Keeps j) (op : Operation)
    (hclean : (s.perform op).2.fault? = none) :
    ∃ k : Journal, (s.perform op).1.ledger.Keeps (j ++ k) ∧ k.Covers [(op, (s.perform op).2)] := by
  -- Each operation has one entry, read off its answer; without a fault nothing is lost.
  cases op with
  | advance d =>
    obtain ⟨hledger, result, hanswer⟩ := s.perform_advance d
    refine ⟨Journal.ofSnapshots [], ?_, ?_⟩
    · rw [hledger, Journal.ofSnapshots_nil, Journal.append_empty]
      exact h
    · rw [hanswer]
      exact Journal.Covers.ofSnapshots rfl fun _ => rfl
  | record r =>
    have hkeeps := h.record r
    rw [perform_record] at hclean ⊢
    cases hresult : (s.ledger.record r).2 with
    | error fault => rw [hresult] at hclean; cases hclean
    | ok taken =>
      rw [hresult] at hkeeps
      refine ⟨_, hkeeps, Journal.Covers.ofRecord fun c => ?_⟩
      cases taken <;> simp [Operation.accepts]
  | recordCompleted r =>
    have hkeeps := h.record (r.completedBy s.now)
    rw [perform_recordCompleted] at hclean ⊢
    cases hresult : (s.ledger.record (r.completedBy s.now)).2 with
    | error fault => rw [hresult] at hclean; cases hclean
    | ok taken =>
      rw [hresult] at hkeeps
      refine ⟨_, hkeeps, Journal.Covers.ofRecord fun c => ?_⟩
      cases taken
      · rfl
      · rw [Bool.true_and]; rfl
  | take client =>
    rw [perform_take] at hclean ⊢
    cases hresult : (s.ledger.take s.now client).2 with
    | error fault => rw [hresult] at hclean; cases hclean
    | ok shown => exact ⟨_, h.take hresult, Journal.Covers.ofSnapshots rfl fun _ => rfl⟩
  | flush =>
    rw [perform_flush] at hclean ⊢
    cases hresult : (s.ledger.flush s.now).2 with
    | error fault => rw [hresult] at hclean; cases hclean
    | ok shown => exact ⟨_, h.flush hresult, Journal.Covers.ofSnapshots rfl fun _ => rfl⟩

/-- A sequence of operations without a fault keeps the books. -/
theorem performAll_keeps {s : Replay} {j : Journal} (h : s.ledger.Keeps j) (ops : List Operation)
    (hclean : ∀ answer ∈ (s.performAll ops).2, answer.fault? = none) :
    ∃ k : Journal, (s.performAll ops).1.ledger.Keeps (j ++ k) ∧
      k.Covers (ops.zip (s.performAll ops).2) := by
  induction ops generalizing s j with
  | nil => exact ⟨Journal.empty, by simpa [performAll] using h, Journal.Covers.nil⟩
  | cons op rest ih =>
    rw [performAll] at hclean ⊢
    simp only [List.mem_cons, forall_eq_or_imp] at hclean
    obtain ⟨hfirst, hrest⟩ := hclean
    -- The journal of the first operation comes before that of the others.
    obtain ⟨k, hkeeps, hcovers⟩ := perform_keeps h op hfirst
    obtain ⟨k', hkeeps', hcovers'⟩ := ih hkeeps hrest
    refine ⟨k ++ k', ?_, ?_⟩
    · rw [← Journal.append_assoc]
      exact hkeeps'
    · simp only [List.zip_cons_cons]
      exact hcovers.append hcovers'

/-- Operations open and close no accounts. -/
theorem clients_perform (s : Replay) (op : Operation) :
    (s.perform op).1.ledger.clients = s.ledger.clients := by
  cases op with
  | advance d => rw [(s.perform_advance d).1]
  | record r => exact Ledger.clients_record s.ledger r
  | recordCompleted r => exact Ledger.clients_record s.ledger (r.completedBy s.now)
  | take client => exact Ledger.clients_take s.ledger s.now client
  | flush => exact Ledger.clients_flush s.ledger s.now

/-- The clients stay the same. -/
theorem clients_performAll (s : Replay) (ops : List Operation) :
    (s.performAll ops).1.ledger.clients = s.ledger.clients := by
  induction ops generalizing s with
  | nil => rfl
  | cons op rest ih => exact (ih (s.perform op).1).trans (clients_perform s op)

/-- An operation has one answer. -/
theorem length_performAll (s : Replay) (ops : List Operation) :
    (s.performAll ops).2.length = ops.length := by
  induction ops generalizing s with
  | nil => rfl
  | cons op rest ih => exact congrArg (· + 1) (ih (s.perform op).1)

/-- The answers that operations were covered with are all answers. -/
theorem flatMap_zip_answers (s : Replay) (ops : List Operation) :
    (ops.zip (s.performAll ops).2).flatMap (·.2.snapshots) =
      (s.performAll ops).2.flatMap Answer.snapshots := by
  have hsnd : (ops.zip (s.performAll ops).2).map Prod.snd = (s.performAll ops).2 :=
    List.map_snd_zip (Nat.le_of_eq (length_performAll s ops))
  conv_rhs => rw [← hsnd, List.flatMap_map]

/-- **Conservation of records**: after any operations without a fault, the totals of every client
    are the counters of its snapshots and of its open window together, and count the records that
    were accepted for it. A client without a profile has no account, no record and no snapshot. -/
theorem conserves (profiles : List Profile) (begun : Span) (ops : List Operation)
    (hclean : ∀ answer ∈ ((openedAt begun profiles).performAll ops).2, answer.fault? = none)
    (c : ClientId) :
    let final := ((openedAt begun profiles).performAll ops).1
    let answers := ((openedAt begun profiles).performAll ops).2
    if c ∈ profiles.map Profile.id then
      ∃ a, final.ledger.account? c = some a ∧ final.ledger.totals.lookup c = some a.totals ∧
        a.Conserves (acceptedOf c (ops.zip answers)) (shownOf c answers)
    else
      final.ledger.account? c = none ∧ final.ledger.totals.lookup c = none ∧
        acceptedOf c (ops.zip answers) = 0 ∧ shownOf c answers = [] := by
  intro final answers
  obtain ⟨j, hkeeps, hcovers⟩ :=
    performAll_keeps (Ledger.keeps_openFor profiles begun) ops hclean
  rw [Journal.empty_append] at hkeeps
  -- What the journal knows of the client is what the operations answered.
  have hshown : (j.of c).shown = shownOf c answers := by
    show j.shown.filter _ = _
    rw [hcovers.shown, shownOf, ← flatMap_zip_answers]
  have hlost : (j.of c).lost = [] := by
    show j.lost.filter _ = _
    rw [hcovers.lost, List.filter_nil]
  have htotals : final.ledger.totals.lookup c = (final.ledger.account? c).map Account.totals :=
    Accounts.lookup_map c (fun _ a => a.totals) final.ledger.accounts
  have hknown : (final.ledger.account? c).isSome ↔ c ∈ profiles.map Profile.id := by
    rw [Ledger.account?_isSome_iff, clients_performAll]
    exact Ledger.mem_clients_openFor profiles begun c
  by_cases hc : c ∈ profiles.map Profile.id
  · rw [if_pos hc]
    obtain ⟨a, ha⟩ := Option.isSome_iff_exists.mp (hknown.mpr hc)
    refine ⟨a, ha, by rw [htotals, ha]; rfl, ?_⟩
    have hconserves := (hkeeps.known c a ha).addsUp hlost
    rw [hcovers.counted, hshown] at hconserves
    exact hconserves
  · rw [if_neg hc]
    have hnone : final.ledger.account? c = none :=
      Option.not_isSome_iff_eq_none.mp fun hsome => hc (hknown.mp hsome)
    have hempty := hkeeps.unknown c hnone
    refine ⟨hnone, by rw [htotals, hnone]; rfl, ?_, ?_⟩
    · rw [← hcovers.counted, hempty]; rfl
    · rw [← hshown, hempty]; rfl

/-- The profiles of two clients. -/
def twoClients : List Profile := [Profile.blank 7 "a", Profile.blank 8 "b"]

/-- A timeout and two successes of one client, with a cut between them and a flush before the last
    record, which is refused. -/
def cutThenFlush : List Operation :=
  let call (outcome : Outcome) : Record :=
    ⟨7, 0, Span.zero, Span.ofMillis 3, 0.5, 0.25, outcome⟩
  [.record (call .timeout), .advance (Span.ofMillis 10), .take 7, .recordCompleted (call .success),
    .take 8, .record (call .success), .flush, .record (call .success)]

/-- Three requests are accepted of the client, and the cut and the flush show them. -/
theorem conserves_cutThenFlush :
    (∀ answer ∈ ((openedAt Span.zero twoClients).performAll cutThenFlush).2,
      answer.fault? = none) ∧
      ∃ a, ((openedAt Span.zero twoClients).performAll cutThenFlush).1.ledger.account? 7 = some a ∧
        a.Conserves 3 (shownOf 7 ((openedAt Span.zero twoClients).performAll cutThenFlush).2) := by
  have hclean : ∀ answer ∈ ((openedAt Span.zero twoClients).performAll cutThenFlush).2,
      answer.fault? = none := by decide +kernel
  have hthree : acceptedOf 7 (cutThenFlush.zip
      ((openedAt Span.zero twoClients).performAll cutThenFlush).2) = 3 := by decide +kernel
  have hknown : (7 : ClientId) ∈ twoClients.map Profile.id := by decide
  have hconserves := conserves twoClients Span.zero cutThenFlush hclean 7
  simp only [if_pos hknown] at hconserves
  obtain ⟨a, haccount, -, hcounters⟩ := hconserves
  rw [hthree] at hcounters
  exact ⟨hclean, a, haccount, hcounters⟩

end Replay

end ClosedLoop
