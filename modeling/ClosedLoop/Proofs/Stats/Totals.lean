import ClosedLoop.Proofs.Stats.Books
import Mathlib.Data.List.Induction

namespace ClosedLoop

/-!
# Totals are sums of records

* `Totals.ofRecords` — the totals of records that were added one after the other;
* `Totals.Even`, `Totals.even_ofRecords` — those of calls that all went well after the same time;
* `Ledger.SumsUp` — the totals of every account are those of the records counted for its client;
* `Ledger.SumsUp.record`, `Ledger.SumsUp.take`, `Ledger.SumsUp.flush` — every operation preserves
  that.
-/

/-- The totals of records, added one after the other. -/
def Totals.ofRecords (rs : List Record) : Totals := rs.foldl Totals.add Totals.zero

/-- One more record is added to the totals. -/
theorem Totals.ofRecords_append_singleton (rs : List Record) (r : Record) :
    ofRecords (rs ++ [r]) = (ofRecords rs).add r := by
  simp [ofRecords]

/-- The totals of so many calls that all went well after the same time. -/
structure Totals.Even (latency requests : Nat) (t : Totals) : Prop where
  tally : t.tally = ⟨requests, requests, 0, 0⟩
  maxLatency : t.maxLatency.nanos = if requests = 0 then 0 else latency

/-- Totals of successes that all took the same time. -/
theorem Totals.even_ofRecords {rs : List Record} {latency : Nat}
    (hall : ∀ r ∈ rs, r.outcome = .success ∧ r.latency.nanos = latency) :
    (ofRecords rs).Even latency rs.length := by
  induction rs using List.reverseRecOn with
  | nil => exact ⟨rfl, rfl⟩
  | append_singleton rest r ih =>
    obtain ⟨htally, hmax⟩ := ih fun s hs => hall s (List.mem_append_left _ hs)
    obtain ⟨houtcome, hlatency⟩ := hall r (by simp)
    rw [ofRecords_append_singleton, add, List.length_append, List.length_singleton]
    constructor
    · show (ofRecords rest).tally.count r.outcome = _
      rw [htally, houtcome, Tally.count]
    · show (max (ofRecords rest).maxLatency r.latency).nanos = _
      rw [Span.nanos_max, hmax, hlatency, if_neg (Nat.succ_ne_zero _)]
      split <;> omega

/-- The totals of an account are those of the records of a journal, and of its windows. -/
def Account.SumsUp (a : Account) (j : Journal) : Prop :=
  a.totals = { Totals.ofRecords j.counted with windows := a.totals.windows }

namespace Account

variable {a : Account} {j : Journal}

/-- The totals of an account are those of the records it has counted, also after one more. -/
theorem SumsUp.add (h : a.SumsUp j) (r : Record) :
    (a.add r).1.SumsUp (j ++ Journal.ofRecord r ((a.add r).2.map fun _ => true)) := by
  unfold SumsUp at *
  unfold Account.add
  -- The totals follow only if the window has taken the latency in.
  rcases a.window.add r with ⟨w, fault | done⟩
  · show a.totals = _
    rw [h]
    simp [Journal.ofRecord, Except.map]
  · show a.totals.add r = _
    rw [h]
    simp [Journal.ofRecord, Except.map, Totals.ofRecords_append_singleton, Totals.add]

/-- A new window does not change the totals. -/
theorem SumsUp.renew (h : a.SumsUp j) (now : Span) : (a.renew now).SumsUp j := by
  unfold SumsUp at *
  unfold Account.renew
  split
  · exact h
  · show { a.totals with windows := a.totals.windows + 1 } = _
    rw [h]

/-- An account that has counted successes of one latency has their totals. -/
theorem SumsUp.even (h : a.SumsUp j) {latency : Nat}
    (hall : ∀ r ∈ j.counted, r.outcome = .success ∧ r.latency.nanos = latency) :
    a.totals.Even latency j.counted.length := by
  have hrecords := Totals.even_ofRecords hall
  unfold SumsUp at h
  rw [h]
  exact ⟨hrecords.tally, hrecords.maxLatency⟩

/-- A fresh window leaves what the records add up to. -/
theorem even_renew {latency requests : Nat} (h : a.totals.Even latency requests) (now : Span) :
    (a.renew now).totals.Even latency requests := by
  unfold renew
  split
  · exact h
  · exact ⟨h.tally, h.maxLatency⟩

end Account

namespace Ledger

variable {l : Ledger} {j : Journal} {now : Span}

/-- The totals of a client are those of its account. -/
theorem lookup_totals (l : Ledger) (c : ClientId) :
    l.totals.lookup c = (l.account? c).map Account.totals :=
  Accounts.lookup_map c (fun _ account => account.totals) l.accounts

/-- The totals of every account are those of the records counted for its client. -/
def SumsUp (l : Ledger) (j : Journal) : Prop :=
  ∀ c a, l.account? c = some a → a.SumsUp (j.of c)

/-- At the start nothing has been counted. -/
theorem sumsUp_openFor (profiles : List Profile) (now : Span) :
    (openFor profiles now).SumsUp Journal.empty := by
  intro c a ha
  rw [account?_openFor] at ha
  obtain ⟨p, -, rfl⟩ := Option.map_eq_some_iff.mp ha
  rfl

/-- What tells of no records keeps the sums. -/
theorem SumsUp.append_ofSnapshots (h : l.SumsUp j) (shown : List Snapshot) :
    l.SumsUp (j ++ Journal.ofSnapshots shown) := by
  intro c a ha
  have hsums := h c a ha
  unfold Account.SumsUp at *
  rw [Journal.of_append, Journal.counted_append, Journal.of_ofSnapshots,
    Journal.counted_ofSnapshots, List.append_nil]
  exact hsums

/-- A record is counted in the totals of its client, if the ledger takes it in. -/
theorem SumsUp.record (h : l.SumsUp j) (r : Record) :
    (l.record r).1.SumsUp (j ++ Journal.ofRecord r (l.record r).2) := by
  unfold Ledger.record
  by_cases hclosed : l.closed
  · rw [if_pos hclosed]
    simpa [Journal.ofRecord] using h
  · rw [if_neg hclosed]
    cases hfound : l.account? r.client with
    | none => simpa [Journal.ofRecord] using h
    | some b =>
      intro c a ha
      rw [account?_modify] at ha
      rw [Journal.of_append, Journal.of_ofRecord]
      -- The journal entry of the record is about its own client only.
      by_cases hc : c = r.client
      · subst hc
        rw [if_pos rfl, hfound, Option.map_some, Option.some.injEq] at ha
        rw [if_pos rfl, ← ha]
        exact (h _ b hfound).add r
      · rw [if_neg hc] at ha
        rw [if_neg hc, Journal.append_empty]
        exact h c a ha

/-- A cut does not change the totals. -/
theorem SumsUp.take (h : l.SumsUp j) (c : ClientId) : (l.take now c).1.SumsUp j := by
  unfold Ledger.take
  split
  · exact h
  · intro d a ha
    rw [account?_modify] at ha
    by_cases hd : d = c
    · rw [if_pos hd] at ha
      obtain ⟨b, hb, rfl⟩ := Option.map_eq_some_iff.mp ha
      exact (h d b hb).renew now
    · rw [if_neg hd] at ha
      exact h d a ha

/-- A flush does not change the totals. -/
theorem SumsUp.flush (h : l.SumsUp j) {shown : List Snapshot}
    (hok : (l.flush now).2 = .ok shown) : (l.flush now).1.SumsUp j := by
  intro c a ha
  rw [account?_flush hok] at ha
  obtain ⟨b, hb, rfl⟩ := Option.map_eq_some_iff.mp ha
  exact (h c b hb).renew now

end Ledger

end ClosedLoop
