import ClosedLoop.Proofs.Stats.Conservation
import ClosedLoop.Proofs.Stats.Ranks

namespace ClosedLoop

/-!
# What does not depend on the order of records

The floating-point sums of a window and of the totals depend on the order in which records come in,
and a histogram keeps its values in that order. Everything else is computed from the rest alone.

* `orderless` — a histogram, window, account, ledger, snapshot or answer without what depends on the
  order;
* `Replay.perform_orderless` — no operation brings that back into the rest;
* `Replay.performAll_congr` — **ledgers that differ in it only have the same answers for ever**,
  up to the sums themselves.
-/

/-- Results that differ in what a function forgets only are the same fault, or both none. -/
theorem same_of_map_eq {α β : Type} {f : α → β} {x y : Except Fault α} (h : x.map f = y.map f) :
    (∃ fault, x = .error fault ∧ y = .error fault) ∨ ∃ a b, x = .ok a ∧ y = .ok b ∧ f a = f b := by
  cases x with
  | error fault =>
    cases y with
    | error other => cases h; exact .inl ⟨fault, rfl, rfl⟩
    | ok b => cases h
  | ok a =>
    cases y with
    | error other => cases h
    | ok b => exact .inr ⟨a, b, rfl, rfl, Except.ok.inj h⟩

/-! ### Histograms -/

namespace Histogram

/-- The histogram with its values in ascending order. -/
def orderless (h : Histogram) : Histogram := ⟨h.sorted⟩

/-- The order in which the values came does not matter. -/
theorem orderless_eq_of_perm {h k : Histogram} (hperm : h.values.Perm k.values) :
    h.orderless = k.orderless := by
  have hsame : h.sorted.Perm k.sorted :=
    (perm_sorted h).trans (hperm.trans (perm_sorted k).symm)
  exact congrArg Histogram.mk
    (List.Perm.eq_of_pairwise (fun _ _ _ _ => Nat.le_antisymm) h.pairwise_sorted k.pairwise_sorted
      hsame)

/-- Forgetting the order twice is forgetting it once. -/
theorem orderless_orderless (h : Histogram) : h.orderless.orderless = h.orderless :=
  orderless_eq_of_perm (perm_sorted h)

/-- A histogram that forgot the order counts on as before. -/
theorem add_orderless (h : Histogram) (latency : Span) :
    (h.orderless.add latency).orderless = (h.add latency).orderless :=
  orderless_eq_of_perm ((perm_sorted h).cons _)

/-- A percentile is read off the sorted values. -/
theorem percentile_orderless (h : Histogram) (percent : Nat) :
    h.orderless.percentile percent = h.percentile percent := by
  have hsorted : h.orderless.sorted = h.sorted :=
    congrArg Histogram.values h.orderless_orderless
  have hlength : h.orderless.values.length = h.values.length := (perm_sorted h).length_eq
  rw [percentile, percentile, hsorted, hlength]

end Histogram

/-! ### Windows -/

/-- The snapshot without the sums of the data moved. -/
def Snapshot.orderless (s : Snapshot) : Snapshot := { s with request := 0, response := 0 }

namespace Window

/-- The window without the sums of the data moved, and with its latencies sorted. -/
def orderless (w : Window) : Window :=
  { w with request := 0, response := 0, latencies := w.latencies.orderless }

/-- A window that forgot the order has no more of it to forget. -/
theorem orderless_orderless (w : Window) : w.orderless.orderless = w.orderless := by
  rw [orderless, orderless, Histogram.orderless_orderless]

/-- Percentiles do not depend on the order. -/
theorem percentile_orderless (w : Window) (percent : Nat) :
    w.orderless.percentile percent = w.percentile percent := by
  rw [percentile, percentile, orderless, Histogram.percentile_orderless]

/-- A record finds room in the sum of the latencies whatever the order was. -/
theorem add_orderless (w : Window) (r : Record) :
    (w.orderless.add r).1.orderless = (w.add r).1.orderless ∧
      (w.orderless.add r).2 = (w.add r).2 := by
  have hsum : w.orderless.latencySum = w.latencySum := rfl
  rw [add, add, hsum]
  cases w.latencySum.add? r.latency with
  | none =>
    refine ⟨?_, rfl⟩
    simp only [orderless, countRecord, Histogram.orderless_orderless]
  | some sum =>
    refine ⟨?_, rfl⟩
    simp only [orderless, addLatency, countRecord, Histogram.add_orderless]

/-- A cut shows the same but for the sums. -/
theorem close_orderless (w : Window) (client : ClientId) (name : String) (now : Span) :
    (w.orderless.close client name now).map Snapshot.orderless =
      (w.close client name now).map Snapshot.orderless := by
  have hmean : w.orderless.meanBits = w.meanBits := rfl
  have hshown (mean : Span) : (w.orderless.shownWith client name now mean).orderless =
      (w.shownWith client name now mean).orderless := by
    simp only [shownWith, percentile_orderless]
    rfl
  rw [close, close, hmean]
  cases Span.ofBitsOrFault w.meanBits with
  | error fault => rfl
  | ok mean => exact congrArg Except.ok (hshown mean)

end Window

/-! ### Accounts -/

/-- The totals without the sum of the data moved. -/
def Totals.orderless (t : Totals) : Totals := { t with transfer := 0 }

namespace Account

/-- The account without the sums of the data moved, and with its latencies sorted. -/
def orderless (a : Account) : Account :=
  { a with window := a.window.orderless, totals := a.totals.orderless }

/-- An account that forgot the order has no more of it to forget. -/
theorem orderless_orderless (a : Account) : a.orderless.orderless = a.orderless := by
  rw [orderless, orderless, Window.orderless_orderless]
  rfl

/-- An account that forgot the order takes a record as before. -/
theorem add_orderless (a : Account) (r : Record) :
    (a.orderless.add r).1.orderless = (a.add r).1.orderless ∧
      (a.orderless.add r).2 = (a.add r).2 := by
  obtain ⟨hwindow, hresult⟩ := a.window.add_orderless r
  have horderless : a.orderless.window = a.window.orderless := rfl
  rw [add, add, horderless]
  -- Both windows give the same result, and only on success do the totals follow.
  generalize a.window.orderless.add r = x at hwindow hresult
  generalize a.window.add r = y at hwindow hresult
  obtain ⟨v, result⟩ := x
  obtain ⟨w, _⟩ := y
  cases hresult
  cases result with
  | error fault => exact ⟨by simp only [orderless, hwindow]; rfl, rfl⟩
  | ok done => exact ⟨by simp only [orderless, hwindow]; rfl, rfl⟩

/-- An account that forgot the order is renewed as before. -/
theorem renew_orderless (a : Account) (now : Span) :
    (a.orderless.renew now).orderless = (a.renew now).orderless := by
  have hempty : a.orderless.window.isEmpty = a.window.isEmpty := rfl
  rw [renew, renew, hempty]
  split <;> rfl

/-- An account that forgot the order shows the same window when it is cut, but for the sums. -/
theorem cut_orderless (a : Account) (client : ClientId) (now : Span) :
    ((a.orderless.cut client now).2.map fun shown => shown.map Snapshot.orderless) =
      (a.cut client now).2.map fun shown => shown.map Snapshot.orderless := by
  have hempty : a.orderless.window.isEmpty = a.window.isEmpty := rfl
  have hsome (result : Except Fault Snapshot) :
      ((result.map some).map fun shown => shown.map Snapshot.orderless) =
        (result.map Snapshot.orderless).map some := by
    cases result <;> rfl
  rw [cut_eq, cut_eq, hempty]
  split
  · rfl
  · rw [hsome, hsome]
    exact congrArg (Except.map some) (a.window.close_orderless client a.name now)

end Account

namespace Accounts

/-- All accounts without the sums, and with their latencies sorted. -/
def orderless (as : Accounts) : Accounts := as.map fun entry => (entry.1, entry.2.orderless)

/-- The accounts that forgot the order are found as before. -/
theorem lookup_orderless (as : Accounts) (c : ClientId) :
    as.orderless.lookup c = (as.lookup c).map Account.orderless :=
  lookup_map c (fun _ a => a.orderless) as

/-- Accounts that forgot the order have no more of it to forget. -/
theorem orderless_orderless (as : Accounts) : as.orderless.orderless = as.orderless := by
  simp [orderless, Account.orderless_orderless]

/-- A change that does not depend on the order may be made before or after it is forgotten. -/
theorem modify_orderless (as : Accounts) (id : ClientId) {f : Account → Account}
    (hf : ∀ a, (f a.orderless).orderless = (f a).orderless) :
    (as.orderless.modify id f).orderless = (as.modify id f).orderless := by
  induction as with
  | nil => rfl
  | cons entry rest ih =>
    obtain ⟨other, a⟩ := entry
    -- The change reaches the first account, or one of the others.
    show (modify id f ((other, a.orderless) :: orderless rest)).orderless = _
    rw [modify, modify]
    split
    · show (other, (f a.orderless).orderless) :: (orderless rest).orderless =
        (other, (f a).orderless) :: orderless rest
      rw [hf, orderless_orderless]
    · show (other, a.orderless.orderless) :: (modify id f (orderless rest)).orderless =
        (other, a.orderless) :: (modify id f rest).orderless
      rw [ih, Account.orderless_orderless]

/-- A fixed account may be put in place before or after the order is forgotten. -/
theorem orderless_modify_const (id : ClientId) (b : Account) (as : Accounts) :
    (as.modify id fun _ => b).orderless = as.orderless.modify id fun _ => b.orderless := by
  induction as with
  | nil => rfl
  | cons entry rest ih =>
    show _ = modify id _ ((entry.1, entry.2.orderless) :: orderless rest)
    rw [modify, modify]
    split
    · rfl
    · rw [← ih]
      rfl

/-- Cutting all windows shows the same but for the sums, and fails at the same account. -/
theorem cutAll_orderless (now : Span) (as : Accounts) :
    (cutAll now as.orderless).1.orderless = (cutAll now as).1.orderless ∧
      ((cutAll now as.orderless).2.map fun shown => shown.map Snapshot.orderless) =
        (cutAll now as).2.map fun shown => shown.map Snapshot.orderless := by
  induction as with
  | nil => exact ⟨rfl, rfl⟩
  | cons entry rest ih =>
    obtain ⟨id, a⟩ := entry
    obtain ⟨haccounts, hothers⟩ := ih
    have hrenew := a.renew_orderless now
    have hsplit : orderless ((id, a) :: rest) = (id, a.orderless) :: orderless rest := rfl
    have hfront (shown : Option Snapshot) (result : Except Fault (List Snapshot)) :
        ((result.map fun others => shown.toList ++ others).map fun all =>
          all.map Snapshot.orderless) =
        (result.map fun others => others.map Snapshot.orderless).map fun others =>
          (shown.map Snapshot.orderless).toList ++ others := by
      cases result <;> cases shown <;> rfl
    -- The first cut fails in both, or in none.
    obtain ⟨fault, hcut, hcut'⟩ | ⟨shown, shown', hcut, hcut', hsame⟩ :=
      same_of_map_eq (a.cut_orderless id now)
    · rw [hsplit, cutAll_cons_of_error _ hcut, cutAll_cons_of_error _ hcut']
      refine ⟨?_, rfl⟩
      show (id, (a.orderless.renew now).orderless) :: (orderless rest).orderless =
        (id, (a.renew now).orderless) :: orderless rest
      rw [hrenew, orderless_orderless]
    · rw [hsplit, cutAll_cons_of_ok _ hcut, cutAll_cons_of_ok _ hcut', hfront, hfront, hothers,
        hsame]
      refine ⟨?_, rfl⟩
      show (id, (a.orderless.renew now).orderless) :: (cutAll now (orderless rest)).1.orderless =
        (id, (a.renew now).orderless) :: (cutAll now rest).1.orderless
      rw [hrenew, haccounts]

end Accounts

/-! ### Ledgers -/

namespace Ledger

/-- The ledger without the sums, and with the latencies sorted. -/
def orderless (l : Ledger) : Ledger := { l with accounts := l.accounts.orderless }

/-- The accounts of a ledger that forgot the order are found as before. -/
theorem account?_orderless (l : Ledger) (c : ClientId) :
    l.orderless.account? c = (l.account? c).map Account.orderless :=
  l.accounts.lookup_orderless c

/-- An account may be changed before or after its ledger forgets the order. -/
theorem modify_orderless (l : Ledger) (c : ClientId) {f : Account → Account}
    (hf : ∀ a, (f a.orderless).orderless = (f a).orderless) :
    (l.orderless.modify c f).orderless = (l.modify c f).orderless :=
  congrArg (Ledger.mk · l.closed) (l.accounts.modify_orderless c hf)

/-- A ledger that forgot the order has no more of it to forget. -/
theorem orderless_orderless (l : Ledger) : l.orderless.orderless = l.orderless :=
  congrArg (Ledger.mk · l.closed) l.accounts.orderless_orderless

/-- The totals without the sums of the data moved. -/
theorem totals_orderless (l : Ledger) :
    l.orderless.totals = l.totals.map fun entry => (entry.1, entry.2.orderless) := by
  show (l.accounts.map _).map _ = (l.accounts.map _).map _
  rw [List.map_map, List.map_map]
  rfl

/-- A ledger that forgot the order takes a record as before. -/
theorem record_orderless (l : Ledger) (r : Record) :
    (l.orderless.record r).1.orderless = (l.record r).1.orderless ∧
      (l.orderless.record r).2 = (l.record r).2 := by
  have hclosed : l.orderless.closed = l.closed := rfl
  unfold record
  rw [account?_orderless, hclosed]
  split
  · exact ⟨l.orderless_orderless, rfl⟩
  · cases l.account? r.client with
    | none => exact ⟨l.orderless_orderless, rfl⟩
    | some a =>
      refine ⟨l.modify_orderless r.client fun b => (b.add_orderless r).1, ?_⟩
      exact congrArg (Except.map fun _ => true) (a.add_orderless r).2

/-- A ledger that forgot the order cuts the window of a client as before. -/
theorem take_orderless (l : Ledger) (now : Span) (c : ClientId) :
    (l.orderless.take now c).1.orderless = (l.take now c).1.orderless ∧
      ((l.orderless.take now c).2.map fun shown => shown.map Snapshot.orderless) =
        (l.take now c).2.map fun shown => shown.map Snapshot.orderless := by
  unfold take
  rw [account?_orderless]
  cases l.account? c with
  | none => exact ⟨l.orderless_orderless, rfl⟩
  | some a =>
    exact ⟨l.modify_orderless c fun b => b.renew_orderless now, a.cut_orderless c now⟩

/-- A ledger that forgot the order is flushed as before. -/
theorem flush_orderless (l : Ledger) (now : Span) :
    (l.orderless.flush now).1.orderless = (l.flush now).1.orderless ∧
      ((l.orderless.flush now).2.map fun shown => shown.map Snapshot.orderless) =
        (l.flush now).2.map fun shown => shown.map Snapshot.orderless := by
  obtain ⟨haccounts, hshown⟩ := l.accounts.cutAll_orderless now
  exact ⟨congrArg (Ledger.mk · true) haccounts, hshown⟩

end Ledger

/-! ### Operations -/

/-- The answer without the sums of the data moved. -/
def Answer.orderless : Answer → Answer
  | .taken result => .taken (result.map fun shown => shown.map Snapshot.orderless)
  | .flushed result => .flushed (result.map fun shown => shown.map Snapshot.orderless)
  | answer => answer

namespace Replay

/-- The ledger without the sums, and with the latencies sorted, at the same time. -/
def orderless (s : Replay) : Replay := ⟨s.now, s.ledger.orderless⟩

/-- What the order of records does to a ledger does not get into anything else. -/
theorem perform_orderless (s : Replay) (op : Operation) :
    (s.orderless.perform op).1.orderless = (s.perform op).1.orderless ∧
      (s.orderless.perform op).2.orderless = (s.perform op).2.orderless := by
  have hnow : s.orderless.now = s.now := rfl
  -- Records and cuts are the only operations that depend on sums of latencies.
  cases op with
  | advance d =>
    simp only [perform, hnow]
    cases Clock.after s.now.nanos d with
    | ok t =>
      exact ⟨congrArg (Replay.mk (Clock.reading t)) s.ledger.orderless_orderless, rfl⟩
    | error fault => exact ⟨congrArg (Replay.mk s.now) s.ledger.orderless_orderless, rfl⟩
  | record r =>
    obtain ⟨hledger, hanswer⟩ := s.ledger.record_orderless r
    exact ⟨congrArg (Replay.mk s.now) hledger, congrArg Answer.recorded hanswer⟩
  | recordCompleted r =>
    obtain ⟨hledger, hanswer⟩ := s.ledger.record_orderless (r.completedBy s.now)
    exact ⟨congrArg (Replay.mk s.now) hledger, congrArg Answer.recorded hanswer⟩
  | take client =>
    obtain ⟨hledger, hanswer⟩ := s.ledger.take_orderless s.now client
    exact ⟨congrArg (Replay.mk s.now) hledger, congrArg Answer.taken hanswer⟩
  | flush =>
    obtain ⟨hledger, hanswer⟩ := s.ledger.flush_orderless s.now
    exact ⟨congrArg (Replay.mk s.now) hledger, congrArg Answer.flushed hanswer⟩

variable {s t : Replay}

/-- Ledgers that differ in the sums only answer an operation alike, and differ in no more after
it. -/
theorem perform_congr (h : s.orderless = t.orderless) (op : Operation) :
    (s.perform op).1.orderless = (t.perform op).1.orderless ∧
      (s.perform op).2.orderless = (t.perform op).2.orderless := by
  obtain ⟨hstate, hanswer⟩ := s.perform_orderless op
  obtain ⟨hstate', hanswer'⟩ := t.perform_orderless op
  rw [h] at hstate hanswer
  exact ⟨hstate.symm.trans hstate', hanswer.symm.trans hanswer'⟩

/-- Ledgers that differ in the sums only answer every sequence of operations alike. -/
theorem performAll_congr (h : s.orderless = t.orderless) (ops : List Operation) :
    (s.performAll ops).1.orderless = (t.performAll ops).1.orderless ∧
      (s.performAll ops).2.map Answer.orderless = (t.performAll ops).2.map Answer.orderless := by
  induction ops generalizing s t with
  | nil => exact ⟨h, rfl⟩
  | cons op rest ih =>
    obtain ⟨hstate, hanswer⟩ := perform_congr h op
    obtain ⟨hlast, hanswers⟩ := ih hstate
    exact ⟨hlast, congrArg₂ List.cons hanswer hanswers⟩

end Replay

end ClosedLoop
