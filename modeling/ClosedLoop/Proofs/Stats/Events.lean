import ClosedLoop.Proofs.Stats.Conservation
import ClosedLoop.Proofs.Stats.Windows

namespace ClosedLoop

/-!
# What happens to the window of one client

Of all operations on a ledger only some concern the window of a given client: the records that the
ledger does not refuse and the cuts. A flush cuts the windows in the order of the clients and may
end in a fault on its way, so that it need not get to every client.

* `Receipt` — a record with the reading of the clock at which it came in;
* `WindowEvent`, `Replay.event?`, `Replay.events` — the records and the cuts of a client, read off
  the operations;
* `Replay.account?_perform` — an operation does to the account of a client what its event says;
* `Replay.cut_of_event?`, `Replay.shown_perform` — what a cut answers is what the window shows.
-/

/-! ### Records and cuts -/

/-- A record that came in, and the reading of the clock at that moment. -/
structure Receipt where
  given : Record
  /-- Was its completion raised to the reading of the clock? -/
  raised : Bool
  now : Span

/-- The record as it is counted. -/
def Receipt.counted (e : Receipt) : Record :=
  if e.raised then e.given.completedBy e.now else e.given

/-- What can happen to the window of a client. -/
inductive WindowEvent where
  /-- A record is counted. -/
  | counted (e : Receipt)
  /-- The window is cut, with what the operation answers for the client: a snapshot, nothing for a
  window without activity, or a fault. -/
  | cut (now : Span) (result : Except Fault (Option Snapshot))

namespace WindowEvent

/-- What an event does to the account of its client. -/
def apply (a : Account) : WindowEvent → Account
  | .counted e => (a.add e.counted).1
  | .cut now _ => a.renew now

/-- The record that an event brings. -/
def receipt? : WindowEvent → Option Receipt
  | .counted e => some e
  | .cut _ _ => none

/-- The reading of the clock at a cut. -/
def reading? : WindowEvent → Option Span
  | .counted _ => none
  | .cut now _ => some now

/-- The snapshot that an event gives out. -/
def snapshot? : WindowEvent → Option Snapshot
  | .cut _ (.ok shown) => shown
  | _ => none

end WindowEvent

/-- Does the ledger count the record? A record whose latency breaks a sum is counted, although the
operation ends in a fault. -/
def Ledger.counts (l : Ledger) (r : Record) : Bool :=
  match (l.record r).2 with
  | .ok false => false
  | _ => true

/-- Do the cuts in order get to the account of a client? They end with the first fault. -/
def Accounts.reaches (now : Span) (c : ClientId) : Accounts → Bool
  | [] => false
  | (id, a) :: rest =>
    c = id || match (a.cut id now).2 with
      | .ok _ => Accounts.reaches now c rest
      | .error _ => false

namespace Replay

/-- The event of a record: none if it concerns another client or is refused. -/
def counting (c : ClientId) (s : Replay) (e : Receipt) : Option WindowEvent :=
  if e.given.client = c ∧ s.ledger.counts e.counted then some (.counted e) else none

/-- What an operation does to the window of a client. -/
def event? (c : ClientId) (s : Replay) : Operation → Option WindowEvent
  | .advance _ => none
  | .record r => s.counting c ⟨r, false, s.now⟩
  | .recordCompleted r => s.counting c ⟨r, true, s.now⟩
  | .take client =>
    if client = c ∧ (s.ledger.account? c).isSome then
      some (.cut s.now (s.ledger.take s.now c).2)
    else none
  | .flush =>
    if s.ledger.accounts.reaches s.now c then
      some (.cut s.now ((s.ledger.flush s.now).2.map fun shown => shown.find? (·.client = c)))
    else none

/-- What operations do to the window of a client, in order. -/
def events (c : ClientId) (s : Replay) : List Operation → List WindowEvent
  | [] => []
  | op :: rest => (s.event? c op).toList ++ (s.perform op).1.events c rest

end Replay

/-! ### Single operations -/

@[simp] theorem Receipt.client_counted (e : Receipt) : e.counted.client = e.given.client := by
  rw [counted]
  split <;> rfl

namespace Ledger

variable {l : Ledger} {r : Record}

/-- A record that is not counted changes nothing. -/
theorem record_of_not_counts (h : l.counts r = false) : (l.record r).1 = l := by
  unfold counts at h
  by_cases hclosed : l.closed
  · rw [record, if_pos hclosed]
  · cases ha : l.account? r.client with
    | none => simp only [record, if_neg hclosed, ha]
    | some a =>
      simp only [record, if_neg hclosed, ha] at h
      cases hadd : (a.add r).2 <;> simp [hadd, Except.map] at h

/-- A record that is counted is added to the account of its client. -/
theorem record_of_counts (h : l.counts r = true) :
    (l.record r).1 = l.modify r.client fun a => (a.add r).1 := by
  unfold counts at h
  by_cases hclosed : l.closed
  · simp [record, if_pos hclosed] at h
  · cases ha : l.account? r.client with
    | none => simp [record, ha] at h
    | some a => simp only [record, if_neg hclosed, ha]

/-- Cutting one window renews one account. -/
theorem take_fst (l : Ledger) (now : Span) (client : ClientId) :
    (l.take now client).1.account? = (l.modify client fun a => a.renew now).account? := by
  funext c
  unfold take
  cases ha : l.account? client with
  | some a => rfl
  | none =>
    show l.account? c = _
    rw [account?_modify]
    by_cases hc : c = client
    · subst hc
      rw [if_pos rfl, ha, Option.map_none]
    · rw [if_neg hc]

end Ledger

namespace Accounts

/-- Cutting all windows renews the accounts that the cuts get to. -/
theorem lookup_cutAll (now : Span) (c : ClientId) {as : Accounts} (asc : Ascending as) :
    (cutAll now as).1.lookup c =
      if as.reaches now c then (as.lookup c).map (·.renew now) else as.lookup c := by
  induction as with
  | nil => rfl
  | cons entry rest ih =>
    obtain ⟨id, a⟩ := entry
    have hrest := ih asc.tail
    rw [reaches]
    cases hcut : (a.cut id now).2 with
    -- A cut that fails ends the flush, and the accounts behind it stay as they are.
    | error fault =>
      rw [cutAll_cons_of_error rest hcut]
      simp only [lookup_cons_eq]
      by_cases hc : c = id <;> simp [hc]
    | ok shown =>
      rw [cutAll_cons_of_ok rest hcut]
      simp only [lookup_cons_eq, hrest]
      by_cases hc : c = id <;> simp [hc]

/-- The cuts get only to clients with an account. -/
theorem lookup_of_reaches {now : Span} {c : ClientId} {as : Accounts}
    (h : as.reaches now c = true) : ∃ a, as.lookup c = some a := by
  induction as with
  | nil => cases h
  | cons entry rest ih =>
    obtain ⟨id, a⟩ := entry
    rw [lookup_cons_eq]
    -- The client is the first, or the cuts have got past the first.
    by_cases hc : c = id
    · exact ⟨a, by rw [if_pos hc]⟩
    · rw [if_neg hc]
      rw [reaches] at h
      simp only [hc, decide_false, Bool.false_or] at h
      split at h
      · exact ih h
      · cases h

/-- If no cut fails, the cuts get to every account. -/
theorem reaches_of_ok {now : Span} {c : ClientId} {as : Accounts} {a : Account}
    {shown : List Snapshot} (hok : (cutAll now as).2 = .ok shown) (ha : as.lookup c = some a) :
    as.reaches now c = true := by
  obtain ⟨-, -, hcuts⟩ := cutAll_ok hok
  clear hok
  induction as with
  | nil => cases ha
  | cons entry rest ih =>
    obtain ⟨id, b⟩ := entry
    obtain ⟨hfirst, hothers⟩ := List.forall_mem_cons.mp hcuts
    rw [reaches, hfirst]
    rw [lookup_cons_eq] at ha
    -- Every cut went well, so each client is reached in its turn.
    by_cases hc : c = id
    · simp [hc]
    · rw [if_neg hc] at ha
      simp [ih ha hothers]

end Accounts

namespace Replay

variable {c : ClientId} {s : Replay}

/-- A record does to the account of a client what its event says. -/
private theorem account?_record (e : Receipt) :
    (s.ledger.record e.counted).1.account? c =
      (s.ledger.account? c).map fun a => (s.counting c e).elim a (WindowEvent.apply a) := by
  unfold counting
  cases hcounts : s.ledger.counts e.counted with
  | false =>
    rw [Ledger.record_of_not_counts hcounts]
    simp
  | true =>
    rw [Ledger.record_of_counts hcounts, Ledger.account?_modify, e.client_counted]
    -- The record concerns the client if it is of this client and has been taken in.
    by_cases hc : c = e.given.client
    · subst hc
      rw [if_pos rfl, if_pos ⟨rfl, rfl⟩]
      rfl
    · have hne : ¬e.given.client = c := fun h => hc h.symm
      rw [if_neg hc, if_neg fun h => hne h.1]
      exact Option.map_id'.symm

/-- **An operation does to the account of a client what its event says**, and nothing if it has
none. -/
theorem account?_perform (asc : s.ledger.accounts.Ascending) (op : Operation) :
    (s.perform op).1.ledger.account? c =
      (s.ledger.account? c).map fun a => (s.event? c op).elim a (WindowEvent.apply a) := by
  cases op with
  | advance d =>
    rw [(s.perform_advance d).1]
    exact Option.map_id'.symm
  | record r => exact account?_record ⟨r, false, s.now⟩
  | recordCompleted r => exact account?_record ⟨r, true, s.now⟩
  | take client =>
    show (s.ledger.take s.now client).1.account? c = _
    rw [Ledger.take_fst, Ledger.account?_modify]
    by_cases hc : c = client
    · subst hc
      cases ha : s.ledger.account? c <;> simp [event?, ha, WindowEvent.apply]
    · have hne : ¬client = c := fun h => hc h.symm
      rw [if_neg hc]
      simp [event?, hne]
  -- The flush is the cut of each client that it reaches.
  | flush =>
    show (s.ledger.accounts.cutAll s.now).1.lookup c = _
    rw [Accounts.lookup_cutAll s.now c asc]
    show _ = (s.ledger.accounts.lookup c).map _
    unfold event?
    cases s.ledger.accounts.reaches s.now c <;> simp [WindowEvent.apply]

/-- A record is counted at the reading of the clock. -/
theorem now_of_event?_counted {op : Operation} {e : Receipt}
    (h : s.event? c op = some (.counted e)) : e.now = s.now := by
  have hcounting (r : Receipt) (hnow : r.now = s.now)
      (hr : s.counting c r = some (.counted e)) : e.now = s.now := by
    unfold counting at hr
    split at hr
    · cases hr
      exact hnow
    · cases hr
  cases op with
  | advance d => cases h
  | record r => exact hcounting _ rfl h
  | recordCompleted r => exact hcounting _ rfl h
  | take client =>
    rw [event?] at h
    split at h <;> cases h
  | flush =>
    rw [event?] at h
    split at h <;> cases h

end Replay

/-- The snapshot of one client among those of a flush is what its window shows. -/
theorem Accounts.find?_of_cutAll_ok {now : Span} {c : ClientId} {as : Accounts} {a : Account}
    {shown : List Snapshot} (asc : Ascending as) (hok : (cutAll now as).2 = .ok shown)
    (ha : as.lookup c = some a) :
    shown.find? (·.client = c) = a.shownBy c now ∧
      (a.cut c now).2 = .ok (a.shownBy c now) := by
  obtain ⟨-, rfl, hcuts⟩ := cutAll_ok hok
  refine ⟨?_, hcuts (c, a) (mem_of_lookup ha)⟩
  have hfilter := @filter_shownBy now as asc c
  rw [ha] at hfilter
  rw [← List.head?_filter, hfilter, Option.head?_toList]

namespace Replay

variable {c : ClientId} {s : Replay}

/-- A cut happens at the reading of the clock, and without a fault it answers what the window
shows. -/
theorem cut_of_event? (asc : s.ledger.accounts.Ascending) {op : Operation} {now : Span}
    {result : Except Fault (Option Snapshot)} (h : s.event? c op = some (.cut now result)) :
    now = s.now ∧ ∀ shown, result = .ok shown →
      ∃ a, s.ledger.account? c = some a ∧ (a.cut c now).2 = .ok shown := by
  have hcounting (e : Receipt) : s.counting c e ≠ some (.cut now result) := by
    unfold counting
    split <;> simp
  -- Only two operations cut: the one for the client and the flush, if it reaches the client.
  cases op with
  | advance d => cases h
  | record r => exact absurd h (hcounting _)
  | recordCompleted r => exact absurd h (hcounting _)
  | take client =>
    rw [event?] at h
    split at h
    next hknown =>
      cases h
      refine ⟨rfl, fun shown hshown => ?_⟩
      obtain ⟨a, ha⟩ := Option.isSome_iff_exists.mp hknown.2
      rw [Ledger.take, ha] at hshown
      exact ⟨a, ha, hshown⟩
    next => cases h
  | flush =>
    rw [event?] at h
    split at h
    next hreach =>
      cases h
      refine ⟨rfl, fun shown hshown => ?_⟩
      obtain ⟨a, ha⟩ := Accounts.lookup_of_reaches hreach
      cases hflush : (s.ledger.flush s.now).2 with
      | error fault => rw [hflush] at hshown; cases hshown
      | ok all =>
        rw [hflush] at hshown
        cases hshown
        obtain ⟨hfind, hcut⟩ := Accounts.find?_of_cutAll_ok asc hflush ha
        exact ⟨a, ha, hcut.trans (congrArg Except.ok hfind.symm)⟩
    next => cases h

/-- The snapshot of a client that cutting one window gives out is that of its event. -/
private theorem shown_take (client : ClientId) :
    (Answer.taken (s.ledger.take s.now client).2).snapshots.filter (·.client = c) =
      (s.event? c (.take client)).toList.filterMap WindowEvent.snapshot? := by
  cases ha : s.ledger.account? client with
  | none =>
    have hunknown : ¬(client = c ∧ (s.ledger.account? c).isSome) := by
      rintro ⟨rfl, hsome⟩
      simp [ha] at hsome
    rw [event?, if_neg hunknown, Ledger.take, ha]
    rfl
  | some a =>
    have htake : (s.ledger.take s.now client).2 = (a.cut client s.now).2 := by
      rw [Ledger.take, ha]
    cases hcut : (a.cut client s.now).2 with
    | error fault =>
      rw [event?, htake, hcut]
      split
      next hsame => rw [← hsame.1, htake, hcut]; rfl
      next => rfl
    | ok shown =>
      -- the snapshot names the client whose window was cut
      have hclient : ∀ t ∈ shown.toList, t.client = client := by
        intro t ht
        rw [← Account.shownBy_ok hcut] at ht
        exact Account.client_of_shownBy (Option.mem_toList.mp ht)
      rw [htake, hcut]
      show shown.toList.filter _ = _
      by_cases hc : client = c
      · subst hc
        rw [event?, if_pos ⟨rfl, by rw [ha]; rfl⟩, htake, hcut,
          List.filter_eq_self.mpr fun t ht => decide_eq_true (hclient t ht)]
        cases shown <;> rfl
      · rw [event?, if_neg fun h => hc h.1, List.filter_eq_nil_iff.mpr]
        · rfl
        · intro t ht hsame
          exact hc ((hclient t ht).symm.trans (of_decide_eq_true hsame))

/-- The snapshot of a client that a flush gives out is that of its event. -/
private theorem shown_flush (asc : s.ledger.accounts.Ascending) :
    (Answer.flushed (s.ledger.flush s.now).2).snapshots.filter (·.client = c) =
      (s.event? c .flush).toList.filterMap WindowEvent.snapshot? := by
  rw [event?]
  cases hflush : (s.ledger.flush s.now).2 with
  | error fault => split <;> rfl
  | ok all =>
    obtain ⟨-, hall, -⟩ := Accounts.cutAll_ok hflush
    have hfilter := @Accounts.filter_shownBy s.now _ asc c
    rw [← hall] at hfilter
    show all.filter _ = _
    -- Without an account there is no cut, and no snapshot of the client among all.
    cases ha : s.ledger.accounts.lookup c with
    | none =>
      have hunreached : s.ledger.accounts.reaches s.now c ≠ true := by
        intro h
        obtain ⟨a, ha'⟩ := Accounts.lookup_of_reaches h
        rw [ha] at ha'
        cases ha'
      rw [if_neg hunreached, hfilter, ha]
      rfl
    | some a =>
      obtain ⟨hfind, -⟩ := Accounts.find?_of_cutAll_ok asc hflush ha
      rw [if_pos (Accounts.reaches_of_ok hflush ha), hfilter, ha]
      show (a.shownBy c s.now).toList =
        [WindowEvent.cut s.now (.ok (all.find? (·.client = c)))].filterMap WindowEvent.snapshot?
      rw [hfind]
      cases a.shownBy c s.now <;> rfl

/-- The snapshots of a client that an operation gives out are those of its event. -/
theorem shown_perform (asc : s.ledger.accounts.Ascending) (op : Operation) :
    (s.perform op).2.snapshots.filter (·.client = c) =
      (s.event? c op).toList.filterMap WindowEvent.snapshot? := by
  have hcounting (e : Receipt) :
      (s.counting c e).toList.filterMap WindowEvent.snapshot? = [] := by
    unfold counting
    split <;> rfl
  cases op with
  | advance d =>
    obtain ⟨-, result, hanswer⟩ := s.perform_advance d
    rw [hanswer]
    rfl
  | record r => exact (hcounting ⟨r, false, s.now⟩).symm
  | recordCompleted r => exact (hcounting ⟨r, true, s.now⟩).symm
  | take client => exact shown_take client
  | flush => exact shown_flush asc

end Replay

end ClosedLoop
