import ClosedLoop.Proofs.Stats.Cutting
import ClosedLoop.Proofs.Stats.Order

namespace ClosedLoop

/-!
# What a failed record leaves behind

A record whose latency breaks the sum of a window has been counted by then: the window shows a call
more than the totals. That is all that stays of it, and it is gone with the next cut of the window.

* `Window.Overcounts`, `Account.Overcounts`, `Ledger.Overcounts` — more calls are counted in one
  open window, and everything else is the same;
* `Answer.uncountedFor` — an answer without the counters of one client;
* `Ledger.Overcounts.record`, `Ledger.Overcounts.take`, `Ledger.Overcounts.flush` — single
  operations; `Replay.Overcounts.performAll` — sequences of them;
* `Replay.failed_record` — **what a failed record changes, and until when**.
-/

/-! ### Answers without counters -/

/-- The snapshot without the number of calls, the data that they moved and the mean. -/
def Snapshot.uncounted (s : Snapshot) : Snapshot :=
  { s with
    tally := 0
    request := 0
    response := 0
    latency := { s.latency with mean := Span.zero } }

/-- The snapshot, if it is one of the client, without its counters. -/
def Snapshot.uncountedFor (c : ClientId) (s : Snapshot) : Snapshot :=
  if s.client = c then s.uncounted else s

/-- The answer without the counters of one client. -/
def Answer.uncountedFor (c : ClientId) : Answer → Answer
  | .taken result => .taken (result.map fun shown => shown.map (Snapshot.uncountedFor c))
  | .flushed result => .flushed (result.map fun shown => shown.map (Snapshot.uncountedFor c))
  | answer => answer

/-- Leaving the counters out of an answer keeps its fault. -/
@[simp] theorem Answer.fault?_uncountedFor (c : ClientId) (answer : Answer) :
    (answer.uncountedFor c).fault? = answer.fault? := by
  cases answer with
  | taken result => cases result <;> rfl
  | flushed result => cases result <;> rfl
  | _ => rfl

/-! ### Windows -/

/-- The first window has counted more calls than the second and is otherwise the same. -/
structure Window.Overcounts (w v : Window) : Prop where
  start : w.start = v.start
  latencySum : w.latencySum = v.latencySum
  latencyMax : w.latencyMax = v.latencyMax
  latencies : w.latencies = v.latencies
  active : 1 ≤ v.tally.requests
  more : v.tally.requests < w.tally.requests

namespace Window.Overcounts

variable {w v : Window}

/-- A window that has counted one more request overcounts. -/
theorem of_countRecord {w : Window} (hactive : 1 ≤ w.tally.requests) (r : Record) :
    (w.countRecord r).Overcounts w where
  start := rfl
  latencySum := rfl
  latencyMax := rfl
  latencies := rfl
  active := hactive
  more := by
    rw [countRecord, Tally.requests_count]
    exact Nat.lt_succ_self _

/-- A record finds room in the sum of the latencies of both or of none. -/
theorem add (h : w.Overcounts v) (r : Record) :
    (w.add r).1.Overcounts (v.add r).1 ∧ (w.add r).2 = (v.add r).2 := by
  have hactive := h.active
  have hmore := h.more
  rw [Window.add, Window.add, h.latencySum]
  -- Both windows have the same sum, so the latency fits into both or into none.
  cases v.latencySum.add? r.latency with
  | none =>
    refine ⟨⟨h.start, h.latencySum, h.latencyMax, h.latencies, ?_, ?_⟩, rfl⟩
    · simp only [countRecord, Tally.requests_count]
      omega
    · simp only [countRecord, Tally.requests_count]
      omega
  | some sum =>
    refine ⟨⟨h.start, rfl, ?_, ?_, ?_, ?_⟩, rfl⟩
    · simp only [addLatency, countRecord, h.latencyMax]
    · simp only [addLatency, countRecord, h.latencies]
    · simp only [addLatency, countRecord, Tally.requests_count]
      omega
    · simp only [addLatency, countRecord, Tally.requests_count]
      omega

/-- A window that overcounts can be closed, as it has counted two calls at least. -/
theorem closable (h : w.Overcounts v) : w.Closable := by
  intro hone
  have hactive := h.active
  have hmore := h.more
  omega

/-- But for the counters, two windows show the same. -/
theorem uncounted_shownWith (h : w.Overcounts v) (client : ClientId) (name : String)
    (now mean mean' : Span) : (w.shownWith client name now mean).uncounted =
      (v.shownWith client name now mean').uncounted := by
  simp only [Snapshot.uncounted, shownWith, percentile, h.start, h.latencyMax, h.latencies]

end Window.Overcounts

/-! ### Accounts -/

/-- The open window of the first account overcounts, and everything else is the same. -/
structure Account.Overcounts (b a : Account) : Prop where
  name : b.name = a.name
  totals : b.totals = a.totals
  window : b.window.Overcounts a.window

namespace Account.Overcounts

variable {a b : Account}

/-- Two accounts of which one overcounts go on so, and give the same answer to a record. -/
theorem add (h : b.Overcounts a) (r : Record) :
    (b.add r).1.Overcounts (a.add r).1 ∧ (b.add r).2 = (a.add r).2 := by
  obtain ⟨hwindow, hresult⟩ := h.window.add r
  rw [Account.add, Account.add]
  generalize b.window.add r = x at hwindow hresult
  generalize a.window.add r = y at hwindow hresult
  obtain ⟨w, result⟩ := x
  obtain ⟨v, _⟩ := y
  cases hresult
  cases result with
  | error fault => exact ⟨⟨h.name, h.totals, hwindow⟩, rfl⟩
  | ok done => exact ⟨⟨h.name, congrArg (Totals.add · r) h.totals, hwindow⟩, rfl⟩

/-- A window with requests shows something. -/
private theorem not_isEmpty {w : Window} (hactive : 1 ≤ w.tally.requests) : ¬w.isEmpty := by
  simp only [Window.isEmpty, beq_iff_eq]
  omega

/-- A cut leaves nothing of the difference. -/
theorem renew (h : b.Overcounts a) (now : Span) : b.renew now = a.renew now := by
  have hactive := h.window.active
  have hmore := h.window.more
  rw [renew_of_active (not_isEmpty (show 1 ≤ b.window.tally.requests by omega)),
    renew_of_active (not_isEmpty hactive), h.name, h.totals]

/-- If the window can be cut, so can the one that overcounts, and they show the same but for the
    counters. -/
theorem uncounted_shownBy (h : b.Overcounts a) {c : ClientId} {now : Span}
    {shown : Option Snapshot} (hok : (a.cut c now).2 = .ok shown) :
    (b.shownBy c now).map (Snapshot.uncountedFor c) = shown.map (Snapshot.uncountedFor c) := by
  -- Neither of the windows is empty: the request that is missing in one is not its only one.
  have hactive := h.window.active
  have hmore := h.window.more
  have hactive' : 1 ≤ b.window.tally.requests := by omega
  obtain ⟨t, ht⟩ := (Window.close_ok_iff hactive' c b.name now).mpr h.window.closable
  have hcut : (b.cut c now).2 = .ok (some t) := by
    rw [cut_eq, if_neg (not_isEmpty hactive'), ht]
    rfl
  rw [shownBy_ok hcut]
  rw [cut_eq, if_neg (not_isEmpty hactive)] at hok
  cases hclose : a.window.close c a.name now with
  | error fault => rw [hclose] at hok; cases hok
  | ok s =>
    rw [hclose] at hok
    cases hok
    obtain ⟨mean, -, rfl⟩ := Window.close_ok ht
    obtain ⟨mean', -, rfl⟩ := Window.close_ok hclose
    have hown (w : Window) (name : String) (mean : Span) :
        (w.shownWith c name now mean).uncountedFor c = (w.shownWith c name now mean).uncounted :=
      if_pos rfl
    refine congrArg some ?_
    rw [hown, hown, h.name]
    exact h.window.uncounted_shownWith c a.name now mean mean'

end Account.Overcounts

/-! ### Ledgers -/

/-- What does not see the replaced account sees no difference. -/
theorem Accounts.map_modify {β : Type} {id : ClientId} {f : Account → Account} {as : Accounts}
    {g : ClientId × Account → β} (h : ∀ a, as.lookup id = some a → g (id, f a) = g (id, a)) :
    (as.modify id f).map g = as.map g := by
  induction as with
  | nil => rfl
  | cons entry rest ih =>
    obtain ⟨other, a⟩ := entry
    rw [modify]
    -- The change reaches the account of its own client, and what is asked does not see it there.
    by_cases hid : id = other
    · subst hid
      rw [if_pos rfl, List.map_cons, List.map_cons, h a (by rw [lookup_cons_eq, if_pos rfl])]
    · rw [if_neg hid, List.map_cons, List.map_cons, ih fun b hb => h b ?_]
      rw [lookup_cons_eq, if_neg hid]
      exact hb

/-- The account of the client overcounts in the first ledger, and everything else is the same. -/
def Ledger.Overcounts (c : ClientId) (m l : Ledger) : Prop :=
  ∃ a b, l.account? c = some a ∧ b.Overcounts a ∧ m = l.replace c b

namespace Ledger.Overcounts

variable {c : ClientId} {l m : Ledger} {now : Span}

/-- The totals do not see the difference. -/
theorem totals_eq (h : m.Overcounts c l) : m.totals = l.totals := by
  obtain ⟨a, b, ha, hb, rfl⟩ := h
  refine Accounts.map_modify fun a' ha' => ?_
  have hsame : some a' = some a := ha'.symm.trans ha
  rw [Option.some.inj hsame]
  exact congrArg (Prod.mk c) hb.totals

/-- Replacing the accounts of other clients does not touch the difference. -/
theorem modify_of_ne (h : m.Overcounts c l) {id : ClientId} (hne : id ≠ c)
    (f : Account → Account) : (m.modify id f).Overcounts c (l.modify id f) := by
  obtain ⟨a, b, ha, hb, rfl⟩ := h
  refine ⟨a, b, ?_, hb, ?_⟩
  · rw [account?_modify, if_neg hne.symm]
    exact ha
  · exact congrArg (Ledger.mk · l.closed) (Accounts.modify_comm hne.symm _ _ l.accounts)

/-- Another client has the same account in both ledgers. -/
theorem account?_of_ne (h : m.Overcounts c l) {id : ClientId} (hne : id ≠ c) :
    m.account? id = l.account? id := by
  obtain ⟨a, b, -, -, rfl⟩ := h
  exact account?_replace_of_ne hne b

/-- Replacing the account of the client in both ledgers. -/
theorem modify_replace {a b : Account} (ha : l.account? c = some a) (f : Account → Account) :
    (l.modify c f).account? c = some (f a) ∧
      (l.replace c b).modify c f = (l.modify c f).replace c (f b) := by
  refine ⟨by rw [account?_modify, if_pos rfl, ha]; rfl, ?_⟩
  refine congrArg (Ledger.mk · l.closed) ?_
  show (l.accounts.modify c _).modify c f = (l.accounts.modify c f).modify c _
  rw [Accounts.modify_modify, Accounts.modify_modify]

/-- A record is taken in or refused by both. -/
theorem record (h : m.Overcounts c l) (r : Record) :
    (m.record r).1.Overcounts c (l.record r).1 ∧ (m.record r).2 = (l.record r).2 := by
  have hclosed : m.closed = l.closed := by
    obtain ⟨a, b, -, -, rfl⟩ := h
    rfl
  unfold Ledger.record
  rw [hclosed]
  -- Both are closed or none is. A record of another client finds the same account in both.
  by_cases hopen : l.closed
  · rw [if_pos hopen, if_pos hopen]
    exact ⟨h, rfl⟩
  · rw [if_neg hopen, if_neg hopen]
    by_cases hc : r.client = c
    · subst hc
      obtain ⟨a, b, ha, hb, rfl⟩ := h
      obtain ⟨hadd, hresult⟩ := hb.add r
      obtain ⟨hown, hreplace⟩ := modify_replace (b := b) ha fun a => (a.add r).1
      rw [account?_replace ha b, ha]
      exact ⟨⟨_, _, hown, hadd, hreplace⟩, congrArg (Except.map fun _ => true) hresult⟩
    · rw [h.account?_of_ne hc]
      cases l.account? r.client with
      | none => exact ⟨h, rfl⟩
      | some a => exact ⟨h.modify_of_ne hc _, rfl⟩

/-- A cut of the window of another client. -/
theorem take_of_ne (h : m.Overcounts c l) {client : ClientId} (hne : client ≠ c) :
    (m.take now client).1.Overcounts c (l.take now client).1 ∧
      (m.take now client).2 = (l.take now client).2 := by
  unfold Ledger.take
  rw [h.account?_of_ne hne]
  cases l.account? client with
  | none => exact ⟨h, rfl⟩
  | some a => exact ⟨h.modify_of_ne hne _, rfl⟩

/-- The cut of the window ends the difference. -/
theorem take (h : m.Overcounts c l) {shown : Option Snapshot}
    (hok : (l.take now c).2 = .ok shown) :
    (m.take now c).1 = (l.take now c).1 ∧ ∃ shown', (m.take now c).2 = .ok shown' ∧
      shown'.map (Snapshot.uncountedFor c) = shown.map (Snapshot.uncountedFor c) := by
  obtain ⟨a, b, ha, hb, rfl⟩ := h
  obtain ⟨shown', hok'⟩ := (b.cut_ok_iff c now).mpr hb.window.closable
  unfold Ledger.take at hok ⊢
  rw [ha] at hok ⊢
  rw [account?_replace ha b]
  refine ⟨?_, shown', hok', ?_⟩
  -- Whatever the account was, the cut makes a new one out of the next window.
  · have hreplace : (l.replace c b).modify c (·.renew now) = l.replace c (b.renew now) :=
      congrArg (Ledger.mk · l.closed) (Accounts.modify_modify c _ _ l.accounts)
    show (l.replace c b).modify c (·.renew now) = l.modify c (·.renew now)
    rw [hreplace]
    exact modify_congr ha (hb.renew now)
  · rw [← Account.shownBy_ok hok']
    exact hb.uncounted_shownBy hok

/-- A flush shows the same but for the counters, and leaves the same ledger. -/
theorem flush (h : m.Overcounts c l) (asc : l.accounts.Ascending) {shown : List Snapshot}
    (hok : (l.flush now).2 = .ok shown) :
    (m.flush now).1 = (l.flush now).1 ∧ ∃ shown', (m.flush now).2 = .ok shown' ∧
      shown'.map (Snapshot.uncountedFor c) = shown.map (Snapshot.uncountedFor c) := by
  obtain ⟨a, b, ha, hb, rfl⟩ := h
  -- Clients differ, so the replaced account is found under one of them only.
  have hown : ∀ a', l.accounts.lookup c = some a' → a' = a := by
    intro a' ha'
    have hsame : some a' = some a := ha'.symm.trans ha
    exact Option.some.inj hsame
  have hclosable : (l.replace c b).Windows Window.Closable := by
    have hall := (flush_ok_iff asc now).mp ⟨shown, hok⟩
    exact hall.modify fun _ _ => hb.window.closable
  have asc' : (l.replace c b).accounts.Ascending := asc.modify c _
  obtain ⟨shown', hok'⟩ := (flush_ok_iff asc' now).mpr hclosable
  obtain ⟨haccounts, hshown, hcuts⟩ := Accounts.cutAll_ok hok
  obtain ⟨haccounts', hshown', -⟩ := Accounts.cutAll_ok hok'
  refine ⟨?_, shown', hok', ?_⟩
  · refine congrArg (Ledger.mk · true) ?_
    rw [haccounts, haccounts']
    refine Accounts.map_modify fun a' ha' => ?_
    rw [hown a' ha', hb.renew now]
  · rw [hshown, hshown', List.map_flatMap, List.map_flatMap]
    show ((l.accounts.modify c _).flatMap _) = _
    rw [List.flatMap_def, List.flatMap_def]
    refine congrArg List.flatten (Accounts.map_modify fun a' ha' => ?_)
    rw [hown a' ha']
    show (b.shownBy c now).toList.map _ = (a.shownBy c now).toList.map _
    rw [← Option.toList_map, ← Option.toList_map,
      hb.uncounted_shownBy (hcuts (c, a) (Accounts.mem_of_lookup ha))]

end Ledger.Overcounts

/-! ### Operations -/

/-- Does the operation cut the window of the client? -/
def Operation.cuts (c : ClientId) : Operation → Bool
  | .take client => client = c
  | .flush => true
  | _ => false

/-- The record that an operation brings at a reading of the clock. -/
def Operation.brings? (now : Span) : Operation → Option Record
  | .record r => some r
  | .recordCompleted r => some (r.completedBy now)
  | _ => none

namespace Replay

/-- The account of the client overcounts in the first state, and everything else is the same. -/
structure Overcounts (c : ClientId) (t s : Replay) : Prop where
  now : t.now = s.now
  ledger : t.ledger.Overcounts c s.ledger

namespace Overcounts

variable {c : ClientId} {s t : Replay}

/-- An operation that does not cut the window keeps the difference, and its answer does not show
    it. -/
theorem perform_of_not_cuts (h : t.Overcounts c s) {op : Operation} (hcuts : op.cuts c = false) :
    (t.perform op).1.Overcounts c (s.perform op).1 ∧ (t.perform op).2 = (s.perform op).2 := by
  obtain ⟨hnow, hledger⟩ := h
  cases op with
  -- Time and the cuts of other clients go on as before, and a flush is a cut of the window.
  | advance d =>
    simp only [perform, hnow]
    cases Clock.after s.now.nanos d with
    | ok instant => exact ⟨⟨rfl, hledger⟩, rfl⟩
    | error fault => exact ⟨⟨hnow, hledger⟩, rfl⟩
  | record r =>
    obtain ⟨hnext, hanswer⟩ := hledger.record r
    exact ⟨⟨hnow, hnext⟩, congrArg Answer.recorded hanswer⟩
  | recordCompleted r =>
    obtain ⟨hnext, hanswer⟩ := hledger.record (r.completedBy s.now)
    rw [perform_recordCompleted, hnow]
    exact ⟨⟨rfl, hnext⟩, congrArg Answer.recorded hanswer⟩
  | take client =>
    obtain ⟨hnext, hanswer⟩ := hledger.take_of_ne (of_decide_eq_false hcuts)
    rw [perform_take, hnow]
    exact ⟨⟨rfl, hnext⟩, congrArg Answer.taken hanswer⟩
  | flush => cases hcuts

/-- The cut of the window shows the difference in the counters, and ends it. -/
theorem perform_of_cuts (h : t.Overcounts c s) (asc : s.ledger.accounts.Ascending)
    {op : Operation} (hcuts : op.cuts c = true) (hclean : (s.perform op).2.fault? = none) :
    (t.perform op).1 = (s.perform op).1 ∧
      (t.perform op).2.uncountedFor c = (s.perform op).2.uncountedFor c := by
  obtain ⟨hnow, hledger⟩ := h
  cases op with
  | advance d => cases hcuts
  | record r => cases hcuts
  | recordCompleted r => cases hcuts
  | take client =>
    -- The cut is either the one of this client or the flush.
    obtain rfl : client = c := of_decide_eq_true hcuts
    rw [perform_take] at hclean ⊢
    rw [perform_take, hnow]
    cases hok : (s.ledger.take s.now client).2 with
    | error fault => rw [hok] at hclean; cases hclean
    | ok shown =>
      obtain ⟨hnext, shown', hok', hsame⟩ := hledger.take hok
      rw [hok', hnext]
      exact ⟨rfl, congrArg (fun shown => Answer.taken (.ok shown)) hsame⟩
  | flush =>
    rw [perform_flush] at hclean ⊢
    rw [perform_flush, hnow]
    cases hok : (s.ledger.flush s.now).2 with
    | error fault => rw [hok] at hclean; cases hclean
    | ok shown =>
      obtain ⟨hnext, shown', hok', hsame⟩ := hledger.flush asc hok
      rw [hok', hnext]
      exact ⟨rfl, congrArg (fun shown => Answer.flushed (.ok shown)) hsame⟩

/-- Operations without a fault keep the difference until they cut the window. Their answers show it
    in the counters only. -/
theorem performAll (h : t.Overcounts c s) (asc : s.ledger.accounts.Ascending)
    {later : List Operation} (hclean : s.Faultless later) :
    (t.performAll later).2.map (Answer.uncountedFor c) =
        (s.performAll later).2.map (Answer.uncountedFor c) ∧
      if later.any (Operation.cuts c) then (t.performAll later).1 = (s.performAll later).1
      else (t.performAll later).1.Overcounts c (s.performAll later).1 := by
  induction later generalizing s t with
  | nil => exact ⟨rfl, h⟩
  | cons op rest ih =>
    obtain ⟨hfirst, hrest⟩ := List.forall_mem_cons.mp hclean
    rw [List.any_cons]
    -- Once the window has been cut the two ledgers are equal, and answer alike from there.
    cases hcuts : op.cuts c with
    | true =>
      obtain ⟨hnext, hanswer⟩ := h.perform_of_cuts asc hcuts hfirst
      rw [Bool.true_or, if_pos rfl]
      refine ⟨congrArg₂ List.cons hanswer ?_, ?_⟩
      · show ((t.perform op).1.performAll rest).2.map _ = _
        rw [hnext]
        rfl
      · show ((t.perform op).1.performAll rest).1 = _
        rw [hnext]
        rfl
    | false =>
      obtain ⟨hnext, hanswer⟩ := h.perform_of_not_cuts hcuts
      obtain ⟨hanswers, hlast⟩ := ih hnext (ascending_perform asc op) hrest
      rw [Bool.false_or]
      exact ⟨congrArg₂ List.cons (congrArg (Answer.uncountedFor c) hanswer) hanswers, hlast⟩

variable (h : t.Overcounts c s) (asc : s.ledger.accounts.Ascending) {later : List Operation}
  (hclean : s.Faultless later)

include h asc hclean

/-- Faults can be read off answers without counters. -/
theorem faultless : t.Faultless later := by
  have hfaults := congrArg (List.map Answer.fault?) (h.performAll asc hclean).1
  simp only [List.map_map, Function.comp_def, Answer.fault?_uncountedFor] at hfaults
  intro answer hanswer
  have hmem : answer.fault? ∈ (s.performAll later).2.map Answer.fault? :=
    hfaults ▸ List.mem_map_of_mem hanswer
  obtain ⟨other, hother, hsame⟩ := List.mem_map.mp hmem
  rw [← hsame]
  exact hclean other hother

/-- The totals of both agree at the end. -/
theorem totals_performAll :
    (t.performAll later).1.ledger.totals = (s.performAll later).1.ledger.totals := by
  obtain ⟨-, hlast⟩ := h.performAll asc hclean
  split at hlast
  · rw [hlast]
  · exact hlast.ledger.totals_eq

/-- Both agree in everything once the window has been cut. -/
theorem performAll_of_cuts (hcuts : later.any (Operation.cuts c) = true) :
    (t.performAll later).1 = (s.performAll later).1 := by
  obtain ⟨-, hlast⟩ := h.performAll asc hclean
  rw [if_pos hcuts] at hlast
  exact hlast

end Overcounts

end Replay

/-! ### Records that fail -/

/-- A window whose sum of latencies has no room for another one has seen a call. -/
theorem Window.Balanced.active {w : Window} (h : w.Balanced) {latency : Span}
    (hnone : w.latencySum.add? latency = none) : 1 ≤ w.tally.requests := by
  by_contra hidle
  have hzero : w.tally.requests = 0 := by omega
  have hsize := Span.size_le_of_add?_eq_none hnone
  have hlt := latency.nanos_lt
  rw [Window.Balanced, Window.Within, hzero, Nat.zero_mul] at h
  omega

/-- The account with a call counted in the open window, and nothing else. -/
def Account.countCall (a : Account) (r : Record) : Account :=
  { a with window := a.window.countRecord r }

/-- A latency without room is counted all the same, and the rest of the account stays. -/
theorem Account.add_of_lost {a : Account} {r : Record}
    (hnone : a.window.latencySum.add? r.latency = none) :
    a.add r = (a.countCall r, .error .spanOverflow) := by
  simp only [Account.add, Window.add, hnone, Account.countCall]

namespace Ledger

variable {l : Ledger} {r : Record} {fault : Fault}

/-- A record that fails has counted the call, and nothing else. -/
theorem record_of_lost (h : (l.record r).2 = .error fault) :
    l.record r = (l.modify r.client (·.countCall r), .error .spanOverflow) := by
  obtain ⟨a, ha, hnone⟩ := record_lost h
  have hadd := Account.add_of_lost hnone
  by_cases hclosed : l.closed
  · rw [record, if_pos hclosed] at h
    cases h
  · rw [record, if_neg hclosed, ha]
    refine Prod.ext (modify_congr ha (congrArg Prod.fst hadd)) ?_
    show (a.add r).2.map _ = _
    rw [hadd]
    rfl

/-- A record that fails leaves a ledger that overcounts. -/
theorem overcounts_of_lost (hbalanced : l.Windows Window.Balanced)
    (h : (l.record r).2 = .error fault) :
    (l.modify r.client (·.countCall r)).Overcounts r.client l := by
  obtain ⟨a, ha, hnone⟩ := record_lost h
  have hactive := (hbalanced r.client a ha).active hnone
  exact ⟨a, a.countCall r, ha, ⟨rfl, rfl, .of_countRecord hactive r⟩, modify_congr ha rfl⟩

end Ledger

namespace Replay

/-- What a record that fails leaves behind. -/
private theorem perform_of_lost {s : Replay} (hbalanced : s.ledger.Windows Window.Balanced)
    {op : Operation} {r : Record} {fault : Fault} (hop : op.brings? s.now = some r)
    (hfault : (s.perform op).2.fault? = some fault) :
    s.perform op = ({ s with ledger := s.ledger.modify r.client (·.countCall r) },
        .recorded (.error .spanOverflow)) ∧
      (s.perform op).1.Overcounts r.client s := by
  -- A record is brought in by two operations, which take it in alike.
  have hrecord : s.perform op =
      ({ s with ledger := (s.ledger.record r).1 }, .recorded (s.ledger.record r).2) := by
    cases op with
    | record q => cases hop; rfl
    | recordCompleted q => cases hop; rfl
    | _ => cases hop
  rw [hrecord] at hfault ⊢
  cases hresult : (s.ledger.record r).2 with
  | ok taken => rw [hresult] at hfault; cases hfault
  | error cause =>
    -- The failure leaves the call counted and all else as it was.
    have hlost := Ledger.record_of_lost hresult
    have hfailed : (s.ledger.record r).2 = .error .spanOverflow := congrArg Prod.snd hlost
    rw [show (s.ledger.record r).1 = _ from congrArg Prod.fst hlost, ← hresult, hfailed]
    exact ⟨rfl, rfl, Ledger.overcounts_of_lost hbalanced hresult⟩

/-- **What a failed record changes**: after any operations, a record that ends in a fault has
    counted the call in the open window of its client, and nothing else. Whatever is done later
    without a fault is done without a fault after it, too, and leaves the same totals. The answers
    are the same but for the counters of that window, and with its next cut the difference is
    gone. -/
theorem failed_record (begun : Span) (profiles : List Profile) (ops : List Operation) :
    let s := ((openedAt begun profiles).performAll ops).1
    ∀ op r fault, op.brings? s.now = some r → (s.perform op).2.fault? = some fault →
      let t : Replay := { s with ledger := s.ledger.modify r.client (·.countCall r) }
      s.perform op = (t, .recorded (.error .spanOverflow)) ∧
      ∀ later, s.Faultless later → t.Faultless later ∧
        (t.performAll later).1.ledger.totals = (s.performAll later).1.ledger.totals ∧
        (t.performAll later).2.map (Answer.uncountedFor r.client) =
          (s.performAll later).2.map (Answer.uncountedFor r.client) ∧
        (later.any (Operation.cuts r.client) →
          (t.performAll later).1 = (s.performAll later).1) := by
  intro s op r fault hop hfault t
  obtain ⟨asc, hbalanced⟩ := balanced_performAll begun profiles ops
  obtain ⟨hperform, hovercounts⟩ := perform_of_lost hbalanced hop hfault
  rw [hperform] at hovercounts
  refine ⟨hperform, fun later hclean => ⟨hovercounts.faultless asc hclean, ?_, ?_, ?_⟩⟩
  · exact hovercounts.totals_performAll asc hclean
  · exact (hovercounts.performAll asc hclean).1
  · exact hovercounts.performAll_of_cuts asc hclean

/-- A call of 10 ^ 19 seconds, two of which are too long for one window. -/
def longCall : Record := ⟨7, 0, Span.zero, Span.clamp 10000000000000000000000000000, 0, 0, .success⟩

/-- A record of another client and a flush. -/
def otherThenFlush : List Operation := [.record { longCall with client := 8 }, .flush]

/-- The second of two long calls fails. Neither the other client nor the totals tell. -/
theorem failed_record_longCall :
    let s := ((openedAt Span.zero twoClients).performAll [.record longCall]).1
    (s.perform (.record longCall)).2.fault? = some .spanOverflow ∧
      s.Faultless otherThenFlush ∧
      ∃ t, s.perform (.record longCall) = (t, .recorded (.error .spanOverflow)) ∧
        t.Faultless otherThenFlush ∧
        (t.performAll otherThenFlush).1.ledger.totals =
          (s.performAll otherThenFlush).1.ledger.totals := by
  have hfault : (((openedAt Span.zero twoClients).performAll [.record longCall]).1.perform
      (.record longCall)).2.fault? = some .spanOverflow := by decide +kernel
  have hclean : Faultless ((openedAt Span.zero twoClients).performAll [.record longCall]).1
      otherThenFlush := by
    unfold Faultless
    decide +kernel
  obtain ⟨hperform, hlater⟩ := failed_record Span.zero twoClients [.record longCall]
    (.record longCall) longCall .spanOverflow rfl hfault
  obtain ⟨hclean', htotals, -⟩ := hlater otherThenFlush hclean
  exact ⟨hfault, hclean, _, hperform, hclean', htotals⟩

/-- The failed record has changed the state: the next snapshot of the client shows two requests
    instead of one, and the totals show one. -/
theorem failed_record_fails :
    let s := ((openedAt Span.zero [Profile.blank 7 "a"]).performAll [.record longCall]).1
    let t := (s.perform (.record longCall)).1
    (s.perform (.record longCall)).2.fault? = some .spanOverflow ∧ t ≠ s ∧
      (t.perform (.take 7)).2.snapshots.map (·.tally.requests) = [2] ∧
      (s.perform (.take 7)).2.snapshots.map (·.tally.requests) = [1] ∧
      t.ledger.totals.map (·.2.tally.requests) = [1] := by
  intro s t
  have hafter : (t.perform (.take 7)).2.snapshots.map (·.tally.requests) = [2] := by
    decide +kernel
  have hbefore : (s.perform (.take 7)).2.snapshots.map (·.tally.requests) = [1] := by
    decide +kernel
  refine ⟨by decide +kernel, fun hsame => ?_, hafter, hbefore, by decide +kernel⟩
  rw [hsame, hbefore] at hafter
  cases hafter

end Replay

end ClosedLoop
