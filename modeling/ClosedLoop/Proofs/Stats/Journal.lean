import ClosedLoop.Proofs.Stats.Accounts
import ClosedLoop.Proofs.Stats.Tally
import Mathlib.Algebra.GroupWithZero.Nat

namespace ClosedLoop

/-!
# What an account keeps of its records

A journal lists what has become of the records that were brought to a ledger. Every operation on
the ledger adds an entry to the journal and keeps the books in agreement with it.

* `Journal` — records that were counted, records that were lost, and snapshots;
* `Account.Keeps` — the counters of an account agree with a journal;
* `Account.Keeps.add`, `Account.Keeps.cut` — records and cuts preserve that, with the entry for what
  became of them.
-/

/-- What has become of records: those that were counted, those that only their window counted
    because a sum of latencies left the range of spans, and the snapshots of cut windows. -/
structure Journal where
  counted : List Record
  lost : List Record
  shown : List Snapshot

namespace Journal

/-- Nothing has happened. -/
def empty : Journal := ⟨[], [], []⟩

instance : Append Journal :=
  ⟨fun i j => ⟨i.counted ++ j.counted, i.lost ++ j.lost, i.shown ++ j.shown⟩⟩

@[simp] theorem counted_empty : empty.counted = [] := rfl
@[simp] theorem lost_empty : empty.lost = [] := rfl
@[simp] theorem shown_empty : empty.shown = [] := rfl

@[simp] theorem counted_append (i j : Journal) : (i ++ j).counted = i.counted ++ j.counted := rfl
@[simp] theorem lost_append (i j : Journal) : (i ++ j).lost = i.lost ++ j.lost := rfl
@[simp] theorem shown_append (i j : Journal) : (i ++ j).shown = i.shown ++ j.shown := rfl

/-- The part of a journal that concerns one client. -/
def of (j : Journal) (c : ClientId) : Journal :=
  ⟨j.counted.filter (·.client = c), j.lost.filter (·.client = c), j.shown.filter (·.client = c)⟩

@[simp] theorem of_empty (c : ClientId) : empty.of c = empty := rfl

@[simp] theorem append_empty (j : Journal) : j ++ empty = j := by
  obtain ⟨counted, lost, shown⟩ := j
  show Journal.mk (counted ++ []) (lost ++ []) (shown ++ []) = _
  simp only [List.append_nil]

@[simp] theorem empty_append (j : Journal) : empty ++ j = j := rfl

/-- Journals are joined as lists are. -/
theorem append_assoc (i j k : Journal) : i ++ j ++ k = i ++ (j ++ k) := by
  show Journal.mk _ _ _ = Journal.mk _ _ _
  simp only [counted_append, lost_append, shown_append, List.append_assoc]

/-- The part of a client is taken from each of two journals. -/
@[simp] theorem of_append (i j : Journal) (c : ClientId) : (i ++ j).of c = i.of c ++ j.of c := by
  show Journal.mk _ _ _ = Journal.mk _ _ _
  simp only [counted_append, lost_append, shown_append, List.filter_append, of]

/-- The entry for a record and what became of it. -/
def ofRecord (r : Record) : Except Fault Bool → Journal
  | .ok true => ⟨[r], [], []⟩
  | .ok false => empty
  | .error _ => ⟨[], [r], []⟩

/-- The entry for snapshots. -/
def ofSnapshots (shown : List Snapshot) : Journal := ⟨[], [], shown⟩

section OfSnapshots

variable (shown : List Snapshot)

@[simp] theorem counted_ofSnapshots : (ofSnapshots shown).counted = [] := rfl
@[simp] theorem lost_ofSnapshots : (ofSnapshots shown).lost = [] := rfl
@[simp] theorem shown_ofSnapshots : (ofSnapshots shown).shown = shown := rfl

end OfSnapshots

/-- No snapshots make no entry. -/
theorem ofSnapshots_nil : ofSnapshots [] = empty := rfl

/-- Of an entry of snapshots those of the client concern it. -/
theorem of_ofSnapshots (shown : List Snapshot) (c : ClientId) :
    (ofSnapshots shown).of c = ofSnapshots (shown.filter (·.client = c)) := rfl

/-- A record concerns its own client. -/
theorem of_ofRecord (r : Record) (result : Except Fault Bool) (c : ClientId) :
    (ofRecord r result).of c = if c = r.client then ofRecord r result else empty := by
  by_cases h : c = r.client
  · subst h
    rcases result with fault | (_ | _) <;> simp [ofRecord, of, empty]
  · have hne : ¬r.client = c := fun heq => h heq.symm
    rcases result with fault | (_ | _) <;> simp [ofRecord, of, empty, h, hne]

end Journal

/-- The tally of records. -/
def tallyOf (records : List Record) : Tally := Tally.of (records.map Record.outcome)

/-- No records have an empty tally. -/
@[simp] theorem tallyOf_nil : tallyOf [] = 0 := rfl

/-- The tallies of two lists of records add up. -/
@[simp] theorem tallyOf_append (rs qs : List Record) :
    tallyOf (rs ++ qs) = tallyOf rs + tallyOf qs := by
  simp only [tallyOf, List.map_append, Tally.of_append]

/-- A tally of records counts all of them as requests. -/
@[simp] theorem requests_tallyOf (records : List Record) :
    (tallyOf records).requests = records.length := by
  simp only [tallyOf, Tally.requests_of, List.length_map]

/-! ### The greatest of several spans -/

/-- The greatest of several spans and one more. -/
def Span.peak (spans : List Span) (last : Span) : Span := spans.foldr max last

namespace Span

/-- A sum of spans is that of their nanoseconds. -/
theorem nanos_of_add? {a b sum : Span} (h : a.add? b = some sum) :
    sum.nanos = a.nanos + b.nanos := by
  rw [add?, ofNanos?] at h
  split at h
  · cases h; rfl
  · cases h

/-- Spans have no sum only if it leaves their range. -/
theorem size_le_of_add?_eq_none {a b : Span} (h : a.add? b = none) :
    UInt64.size * 1000000000 ≤ a.nanos + b.nanos := by
  rw [add?, ofNanos?] at h
  split at h
  · cases h
  · omega

/-- No span is less than zero. -/
theorem max_zero (a : Span) : max a zero = a := by
  ext; simp

/-- The greater of two last spans may be taken before or after the others. -/
theorem peak_max (spans : List Span) (a b : Span) :
    peak spans (max a b) = max (peak spans a) b := by
  induction spans with
  | nil => rfl
  | cons s rest ih =>
    show max s (peak rest (max a b)) = max (max s (peak rest a)) b
    rw [ih]
    ext
    simp only [nanos_max]
    omega

/-- One more span at the end is the last one. -/
theorem peak_append_singleton (spans : List Span) (a : Span) :
    peak (spans ++ [a]) zero = peak spans a := by
  simp only [peak, List.foldr_append, List.foldr_cons, List.foldr_nil, max_zero]

end Span

/-! ### Accounts -/

/-- A window counts every call once, and knows no latency before its first call. -/
structure Window.Sound (w : Window) : Prop where
  tally : w.tally.Sound
  latencyMax : w.tally.requests = 0 → w.latencyMax = Span.zero

/-- What every snapshot of a window with activity shows. -/
structure Snapshot.Sound (s : Snapshot) : Prop where
  active : 1 ≤ s.tally.requests
  tally : s.tally.Sound

/-- The counters of an account agree with a journal. -/
structure Account.Keeps (a : Account) (j : Journal) : Prop where
  totals : a.totals.tally = tallyOf j.counted
  window : (j.shown.map Snapshot.tally).sum + a.window.tally = tallyOf j.counted + tallyOf j.lost
  windows : a.totals.windows = j.shown.length
  maxLatency : a.totals.maxLatency = Span.peak (j.shown.map (·.latency.max)) a.window.latencyMax
  sound : a.window.Sound
  /-- The window has added up no more latencies than there were. -/
  latencySum : a.window.latencySum.nanos ≤ (j.counted.map (·.latency.nanos)).sum
  shown : ∀ s ∈ j.shown, s.Sound

/-- A window is opened with nothing in it. -/
theorem Window.sound_openAt (now : Span) : (Window.openAt now).Sound :=
  ⟨Tally.sound_zero, fun _ => rfl⟩

/-- An account is opened with nothing in it. -/
theorem Account.keeps_openAt (name : String) (now : Span) :
    (Account.openAt name now).Keeps Journal.empty where
  totals := rfl
  window := rfl
  windows := rfl
  maxLatency := rfl
  sound := Window.sound_openAt now
  latencySum := Nat.le_refl 0
  shown := fun _ hs => absurd hs (by simp [Journal.empty])

/-- One more record is counted, or lost if its latency breaks the sum. -/
theorem Account.Keeps.add {a : Account} {j : Journal} (h : a.Keeps j) (r : Record) :
    (a.add r).1.Keeps (j ++ Journal.ofRecord r ((a.add r).2.map fun _ => true)) := by
  obtain ⟨htotals, hwindow, hwindows, hmax, hsound, hsum, hshown⟩ := h
  have hcount : a.window.tally.count r.outcome = a.window.tally + tallyOf [r] :=
    Tally.count_eq_add _ _
  have hwin : (j.shown.map Snapshot.tally).sum + a.window.tally.count r.outcome
      = tallyOf j.counted + tallyOf j.lost + tallyOf [r] := by
    rw [hcount, ← add_assoc, hwindow]
  -- The window counts the record first, and the totals follow only if the latencies add up.
  -- The record goes into the window either way.
  cases hlonger : a.window.latencySum.add? r.latency with
  | none =>
    have hadd : a.add r = ({ a with window := a.window.countRecord r }, .error .spanOverflow) := by
      simp only [Account.add, Window.add, hlonger]
    rw [hadd]
    show Account.Keeps _ (j ++ ⟨[], [r], []⟩)
    refine ⟨?_, ?_, ?_, ?_, ⟨hsound.tally.count _, ?_⟩, ?_, ?_⟩
    · simpa using htotals
    · simp only [Journal.shown_append, Journal.counted_append, Journal.lost_append,
        List.append_nil, tallyOf_append, Window.countRecord]
      rw [hwin, add_assoc]
    · simpa using hwindows
    · simpa [Window.countRecord] using hmax
    · intro hnone
      simp [Window.countRecord] at hnone
    · simpa [Window.countRecord] using hsum
    · simpa using hshown
  | some sum =>
    have hadd : a.add r = ({ a with
        window := (a.window.countRecord r).addLatency sum r.latency
        totals := a.totals.add r }, .ok ()) := by
      simp only [Account.add, Window.add, hlonger]
    rw [hadd]
    show Account.Keeps _ (j ++ ⟨[r], [], []⟩)
    refine ⟨?_, ?_, ?_, ?_, ⟨hsound.tally.count _, ?_⟩, ?_, ?_⟩
    · simp only [Journal.counted_append, tallyOf_append, Totals.add]
      rw [← htotals]
      exact Tally.count_eq_add _ _
    · simp only [Journal.shown_append, Journal.counted_append, Journal.lost_append,
        List.append_nil, tallyOf_append, Window.countRecord, Window.addLatency]
      rw [hwin, add_right_comm]
    · simpa [Totals.add] using hwindows
    · simp only [Journal.shown_append, List.append_nil, Totals.add, Window.countRecord,
        Window.addLatency]
      rw [Span.peak_max, hmax]
    · intro hnone
      simp [Window.countRecord, Window.addLatency] at hnone
    · have hnanos := Span.nanos_of_add? hlonger
      simp only [Journal.counted_append, List.map_append, List.sum_append, List.map_cons,
        List.map_nil, List.sum_cons, List.sum_nil, Window.countRecord, Window.addLatency]
      omega
    · simpa using hshown

/-! ### Cuts -/

/-- The snapshot of a window differs from it in the mean latency only. -/
theorem Window.close_ok {w : Window} {client : ClientId} {name : String} {now : Span}
    {s : Snapshot} (h : w.close client name now = .ok s) :
    ∃ mean, Span.ofBitsOrFault w.meanBits = .ok mean ∧
      s = w.shownWith client name now mean := by
  rw [Window.close] at h
  generalize Span.ofBitsOrFault w.meanBits = result at h
  cases result with
  | error fault => cases h
  | ok mean => cases h; exact ⟨mean, rfl, rfl⟩

/-- A cut shows the window if it has seen activity. -/
theorem Account.cut_eq (a : Account) (client : ClientId) (now : Span) :
    (a.cut client now).2 = if a.window.isEmpty then .ok none
      else (a.window.close client a.name now).map some := rfl

/-- A window without activity is opened anew, and the totals stay. -/
theorem Account.renew_of_empty {a : Account} (h : a.window.isEmpty) (now : Span) :
    a.renew now = { a with window := Window.openAt now } := by
  simp only [Account.renew, h, if_true]

/-- A window with activity is opened anew, and the totals count it. -/
theorem Account.renew_of_active {a : Account} (h : ¬a.window.isEmpty) (now : Span) :
    a.renew now = { a with
      window := Window.openAt now
      totals := { a.totals with windows := a.totals.windows + 1 } } := by
  simp only [Account.renew, if_neg h]

/-- A cut moves the counters of the window into its snapshot. -/
theorem Account.Keeps.cut {a : Account} {j : Journal} (h : a.Keeps j) {client : ClientId}
    {now : Span} {shown : Option Snapshot} (hcut : (a.cut client now).2 = .ok shown) :
    (a.renew now).Keeps (j ++ Journal.ofSnapshots shown.toList) := by
  obtain ⟨htotals, hwindow, hwindows, hmax, hsound, hsum, hshown⟩ := h
  rw [Account.cut_eq] at hcut
  -- A window without activity is dropped with nothing in it; another one becomes a snapshot.
  by_cases hempty : a.window.isEmpty
  · rw [if_pos hempty] at hcut
    cases hcut
    have hnone : a.window.tally.requests = 0 := by simpa [Window.isEmpty] using hempty
    rw [Account.renew_of_empty hempty]
    show Account.Keeps _ (j ++ Journal.ofSnapshots [])
    rw [Journal.ofSnapshots_nil, Journal.append_empty]
    refine ⟨htotals, ?_, hwindows, ?_, Window.sound_openAt now, Nat.zero_le _, hshown⟩
    · rw [← hwindow, hsound.tally.eq_zero hnone]
      rfl
    · rw [hmax, hsound.latencyMax hnone]
      rfl
  · rw [if_neg hempty] at hcut
    cases hclose : a.window.close client a.name now with
    | error fault => rw [hclose] at hcut; exact absurd hcut (by simp [Except.map])
    | ok s =>
      rw [hclose] at hcut
      cases hcut
      obtain ⟨mean, -, rfl⟩ := Window.close_ok hclose
      have hactive : a.window.tally.requests ≠ 0 := by simpa [Window.isEmpty] using hempty
      rw [Account.renew_of_active hempty]
      show Account.Keeps _ (j ++ Journal.ofSnapshots [a.window.shownWith client a.name now mean])
      refine ⟨?_, ?_, ?_, ?_, Window.sound_openAt now, Nat.zero_le _, ?_⟩
      · simpa using htotals
      · simp only [Journal.shown_append, Journal.counted_append, Journal.lost_append,
          Journal.shown_ofSnapshots, Journal.counted_ofSnapshots, Journal.lost_ofSnapshots,
          List.append_nil, List.map_append, List.map_cons, List.map_nil, List.sum_append,
          List.sum_cons, List.sum_nil, Window.shownWith]
        rw [add_zero, ← hwindow]
        exact add_zero _
      · simp [hwindows]
      · simp only [Journal.shown_append, Journal.shown_ofSnapshots, List.map_append, List.map_cons,
          List.map_nil, Window.openAt, Window.shownWith]
        rw [Span.peak_append_singleton, hmax]
      · intro t ht
        simp only [Journal.shown_append, Journal.shown_ofSnapshots, List.mem_append,
          List.mem_singleton] at ht
        rcases ht with ht | rfl
        · exact hshown t ht
        · exact ⟨Nat.one_le_iff_ne_zero.mpr hactive, hsound.tally⟩

end ClosedLoop
