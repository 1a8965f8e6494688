import ClosedLoop.Proofs.Engine.Turns
import ClosedLoop.Proofs.Stats.Windows

namespace ClosedLoop

/-!
# The books of a run

The events of a run are a journal of its ledger: it agrees with them after every run.

* `journalOf` — the journal that the events of a run tell;
* `Engine.Books` — the ledger agrees with it, and nothing took longer than the range of the clock,
  so that no window fails to be cut (`Engine.Books.take_ne_error`, `Engine.Books.flush_ne_error`);
* `Engine.Steps.books`, `Engine.run?_books` — every step and every run keep the books.
-/

/-- What an event tells of the records. -/
def Event.entry : Event → Journal
  | .recorded _ record result => Journal.ofRecord record result
  | .ticked _ _ shown => Journal.ofSnapshots shown.toList
  | .flushed shown => Journal.ofSnapshots shown
  | _ => Journal.empty

/-- What the events of a run tell of the records. -/
def journalOf (events : List Event) : Journal :=
  events.foldr (fun event j => event.entry ++ j) Journal.empty

@[simp] theorem journalOf_nil : journalOf [] = Journal.empty := rfl

@[simp] theorem journalOf_cons (event : Event) (events : List Event) :
    journalOf (event :: events) = event.entry ++ journalOf events := rfl

@[simp] theorem journalOf_append (before after : List Event) :
    journalOf (before ++ after) = journalOf before ++ journalOf after := by
  induction before with
  | nil => rfl
  | cons event rest ih => rw [List.cons_append, journalOf_cons, journalOf_cons, ih,
      Journal.append_assoc]

/-- The journal of one event. -/
theorem journalOf_singleton (event : Event) : journalOf [event] = event.entry :=
  Journal.append_empty event.entry

namespace Engine

/-- The ledger of an engine agrees with what was told, and no time is beyond the range of the
    clock. -/
structure Books (e : Engine) (told : List Event) : Prop where
  keeps : e.ledger.Keeps (journalOf told)
  within : e.ledger.Windows (Window.Within Clock.range)
  now_le : e.now ≤ Clock.range
  completed_le : ∀ (i : Nat) (inst : Instance) (record : Record),
    e.instances[i]? = some inst → inst.phase = .recording record →
    record.completed.nanos ≤ Clock.range

/-- The clock shows no more than has passed. -/
theorem reading_nanos_le (t : Nat) : (Clock.reading t).nanos ≤ t := Nat.min_le_left _ _

/-- The clock shows the instants within its range. -/
theorem nanos_reading {t : Nat} (h : t ≤ Clock.range) : (Clock.reading t).nanos = t := by
  refine Nat.min_eq_left ?_
  unfold Clock.range at h
  omega

/-- No window fails to be cut, for sums of latencies within the range of the clock have a mean. -/
theorem Books.take_ne_error {e : Engine} {told : List Event} (hb : e.Books told) (c : ClientId)
    (fault : Fault) : (e.ledger.take e.reading c).2 ≠ .error fault := by
  intro hfails
  obtain ⟨shown, hok⟩ := Ledger.take_ok hb.within e.reading c
  rw [hfails] at hok
  cases hok

/-- No flush fails, as none of its windows does. -/
theorem Books.flush_ne_error {e : Engine} {told : List Event} (hb : e.Books told) (fault : Fault) :
    (e.ledger.flush e.reading).2 ≠ .error fault := by
  intro hfails
  obtain ⟨shown, hok⟩ := Ledger.flush_ok hb.keeps.ascending hb.within e.reading
  rw [hfails] at hok
  cases hok

/-- Records are completed at times of the clock. -/
private theorem Steps.completed_le {e e' : Engine} {a : Action} {told new : List Event}
    (h : Steps e a e' new) (hb : e.Books told) :
    ∀ (i : Nat) (inst : Instance) (record : Record),
      e'.instances[i]? = some inst → inst.phase = .recording record →
      record.completed.nanos ≤ Clock.range := by
  intro i inst record found holds
  obtain ⟨before, hbefore, move⟩ := h.moved found
  generalize eventsOf i new = about at move
  -- Only a reply makes an instance hold a record, and it is completed at the present time.
  cases move with
  | stays => exact hb.completed_le i _ record hbefore holds
  | returns awaits =>
    cases holds
    exact Nat.le_trans (reading_nanos_le e.now) hb.now_le
  | issues | records | crashes | abandons | ends => cases holds

/-- The latency of a record that completes now is no longer than the time until now. -/
theorem latency_completedBy_le {record : Record} {now bound : Nat}
    (hcompleted : record.completed.nanos ≤ bound) (hnow : now ≤ bound) :
    (record.completedBy (Clock.reading now)).latency.nanos ≤ bound := by
  have hreading := reading_nanos_le now
  rw [Record.latency, Record.completedBy, Span.nanos_since, Span.nanos_max]
  omega

/-- Handing over a record keeps every window within the range of the clock. -/
private theorem within_record {e : Engine} {told : List Event} (hb : e.Books told) {i : Nat}
    {inst : Instance} {record : Record} (found : e.instances[i]? = some inst)
    (holds : inst.phase = .recording record) :
    (e.ledger.record (record.completedBy e.reading)).1.Windows (Window.Within Clock.range) :=
  hb.within.record fun _ hw =>
    hw.add (latency_completedBy_le (hb.completed_le i inst record found holds) hb.now_le)

/-- Every step keeps the books, with the events it shows. -/
theorem Steps.books {e e' : Engine} {a : Action} {told new : List Event} (h : Steps e a e' new)
    (hb : e.Books told) : e'.Books (told ++ new) := by
  have hcompleted := h.completed_le hb
  cases h with
  | record found turn kept =>
    obtain ⟨holds, -⟩ := Instance.handOver?_eq_some turn
    refine ⟨?_, within_record hb found holds, hb.now_le, hcompleted⟩
    rw [journalOf_append, journalOf_singleton, Event.entry, ← kept]
    exact hb.keeps.record _
  | crash found turn kept =>
    obtain ⟨holds, -⟩ := Instance.handOver?_eq_some turn
    refine ⟨?_, within_record hb found holds, hb.now_le, hcompleted⟩
    rw [journalOf_append, journalOf_singleton, Event.entry, ← kept]
    exact hb.keeps.record _
  | cutNothing found due waits kept =>
    refine ⟨?_, hb.within.take (Window.within_openAt _ _) _, hb.now_le, hcompleted⟩
    rw [journalOf_append, journalOf_singleton, Event.entry]
    exact hb.keeps.take kept
  | cut found due waits kept =>
    refine ⟨?_, hb.within.take (Window.within_openAt _ _) _, hb.now_le, hcompleted⟩
    rw [journalOf_append, journalOf_singleton, Event.entry]
    exact hb.keeps.take kept
  -- No cut fails while the books are right.
  | cutFails found due waits kept =>
    exact absurd kept (hb.take_ne_error _ _)
  | flush drains ripe kept =>
    refine ⟨?_, Ledger.Windows.flush (Window.within_openAt _ _) kept, hb.now_le, hcompleted⟩
    rw [journalOf_append, journalOf_singleton, Event.entry]
    exact hb.keeps.flush kept
  | flushFails drains ripe kept =>
    exact absurd kept (hb.flush_ne_error _)
  | advance later range =>
    rw [List.append_nil]
    exact ⟨hb.keeps, hb.within, range, hcompleted⟩
  | send | leave | stop | sendFlushed =>
    rw [List.append_nil]
    exact ⟨hb.keeps, hb.within, hb.now_le, hcompleted⟩
  -- These tell nothing of records.
  | issue | reply | quit | receive | finish =>
    refine ⟨?_, hb.within, hb.now_le, hcompleted⟩
    rw [journalOf_append, journalOf_singleton]
    exact (Journal.append_empty _).symm ▸ hb.keeps

/-- The books are right at the start of a run. -/
theorem books_start (config : EngineConfig) (profiles : List Profile) :
    (start config profiles).Books [] where
  keeps := Ledger.keeps_openFor profiles Span.zero
  within := Ledger.windows_openFor (Window.within_openAt _ _) profiles
  now_le := Nat.zero_le _
  completed_le i inst record found holds := by
    have hphase := phase_of_instancesFrom (List.mem_of_getElem? found)
    rw [hphase] at holds
    cases holds

/-- Every run keeps the books. -/
theorem run?_books {config : EngineConfig} {profiles : List Profile} {as : List Action}
    {e : Engine} {events : List Event} (h : (start config profiles).run? as = some (e, events)) :
    e.Books events :=
  run?_induction (motive := Books) h (books_start config profiles) fun hb hstep => hstep.books hb

end Engine

end ClosedLoop
