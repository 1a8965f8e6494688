import ClosedLoop.Proofs.Stats.Orderless

namespace ClosedLoop

/-!
# The order of records

Records that reach a ledger one after the other leave it, up to the floating-point sums, in the same
state in every order, and end in a fault in every order or in none.

* `completed?` — the state that an operation leaves, if it does not end in a fault;
* `Window.add_comm`, `Account.add_comm`, `Ledger.record_comm` — two records commute;
* `Ledger.recordAll?_perm` — hence all orders of records are alike;
* `Replay.order_indifferent` — **no later cut and no totals tell the order**, but for the sums.
-/

/-- The state that an operation leaves, if it does not end in a fault. -/
def completed? {σ α : Type} (x : σ × Except Fault α) : Option σ :=
  match x.2 with
  | .ok _ => some x.1
  | .error _ => none

/-- What two operations leave behind agrees if their states agree and their results are the same. -/
theorem completed?_congr {σ τ α : Type} {x y : σ × Except Fault α} {f : σ → τ}
    (hstate : f x.1 = f y.1) (hresult : x.2 = y.2) :
    (completed? x).map f = (completed? y).map f := by
  rw [completed?, completed?, hresult]
  cases y.2 with
  | error fault => rfl
  | ok result => exact congrArg some hstate

/-- A view of the state does not depend on what becomes of the result. -/
theorem completed?_map {σ τ α β : Type} (x : σ × Except Fault α) (f : σ → τ) (g : α → β) :
    completed? (f x.1, x.2.map g) = (completed? x).map f := by
  rw [completed?, completed?]
  cases x.2 <;> rfl

/-- An operation that ends well leaves its state behind. -/
theorem eq_of_completed? {σ α : Type} {x : σ × Except Fault α} {s : σ}
    (h : completed? x = some s) : s = x.1 := by
  rw [completed?] at h
  split at h
  · exact (Option.some.inj h).symm
  · cases h

/-- Steps that agree up to what a function forgets agree so one after the other. -/
theorem map_bind_congr {σ τ : Type} {f : σ → τ} {x y : Option σ} {g k : σ → Option σ}
    (hfirst : x.map f = y.map f) (hnext : ∀ a b, f a = f b → (g a).map f = (k b).map f) :
    (x.bind g).map f = (y.bind k).map f := by
  cases x with
  | none =>
    obtain rfl : y = none := by simpa using hfirst.symm
    rfl
  | some a =>
    obtain ⟨b, rfl, hab⟩ := Option.map_eq_some_iff.mp hfirst.symm
    exact hnext a b hab.symm

/-! ### Two records at a window -/

namespace Span

/-- Of three spans the last two may change places. -/
theorem max_right_comm (a b c : Span) : max (max a b) c = max (max a c) b := by
  ext
  simp only [nanos_max]
  omega

/-- Spans have a sum in any order, or in none. -/
theorem add?_right_comm (a b c : Span) :
    ((a.add? b).bind fun sum => sum.add? c) = (a.add? c).bind fun sum => sum.add? b := by
  have htwo (b c : Span) : ((a.add? b).bind fun sum => sum.add? c) =
      ofNanos? (a.nanos + b.nanos + c.nanos) := by
    cases hsum : a.add? b with
    | some sum => rw [Option.bind_some, add?, nanos_of_add? hsum]
    | none =>
      have hsize := size_le_of_add?_eq_none hsum
      rw [Option.bind_none, ofNanos?, dif_neg (by omega)]
  rw [htwo, htwo, Nat.add_right_comm]

end Span

/-- Two outcomes may be counted in either order. -/
theorem Tally.count_right_comm (t : Tally) (o p : Outcome) :
    (t.count o).count p = (t.count p).count o := by
  simp only [Tally.count_eq_add, add_right_comm]

namespace Window

/-- A window takes a record exactly if the sum of its latencies can be formed. -/
theorem completed?_add (w : Window) (r : Record) : completed? (w.add r) =
    (w.latencySum.add? r.latency).map fun sum => (w.countRecord r).addLatency sum r.latency := by
  rw [add]
  cases w.latencySum.add? r.latency <;> rfl

/-- Two records are counted alike in either order, or break the sum of the latencies in both. -/
theorem add_comm (w : Window) (r q : Record) :
    ((completed? (w.add r)).bind fun v => completed? (v.add q)).map orderless =
      ((completed? (w.add q)).bind fun v => completed? (v.add r)).map orderless := by
  -- The sum in between is overwritten: only whether both latencies fit counts.
  have htwo (r q : Record) : ((completed? (w.add r)).bind fun v => completed? (v.add q)) =
      ((w.latencySum.add? r.latency).bind fun sum => sum.add? q.latency).map fun sum =>
        (((w.countRecord r).addLatency w.latencySum r.latency).countRecord q).addLatency sum
          q.latency := by
    rw [completed?_add]
    cases w.latencySum.add? r.latency with
    | none => rfl
    | some sum => exact completed?_add _ q
  rw [htwo, htwo, Span.add?_right_comm, Option.map_map, Option.map_map]
  congr 1
  funext sum
  have hlatencies : ((w.latencies.add r.latency).add q.latency).orderless =
      ((w.latencies.add q.latency).add r.latency).orderless :=
    Histogram.orderless_eq_of_perm (.swap _ _ _)
  simp only [Function.comp_apply, orderless, addLatency, countRecord, hlatencies,
    Tally.count_right_comm _ r.outcome, Span.max_right_comm _ r.latency]

end Window

/-! ### Two records at an account -/

namespace Account

/-- An account takes a record exactly if its window does. -/
theorem completed?_add (a : Account) (r : Record) : completed? (a.add r) =
    (completed? (a.window.add r)).map fun w =>
      { a with window := w, totals := a.totals.add r } := by
  rw [add]
  obtain ⟨w, fault | ⟨⟩⟩ := a.window.add r <;> rfl

/-- Two records may reach an account in either order, as far as the order can be seen. -/
theorem add_comm (a : Account) (r q : Record) :
    ((completed? (a.add r)).bind fun b => completed? (b.add q)).map orderless =
      ((completed? (a.add q)).bind fun b => completed? (b.add r)).map orderless := by
  -- What two records leave behind depends on the window and on the totals, one by one.
  have htwo (r q : Record) :
      ((completed? (a.add r)).bind fun b => completed? (b.add q)).map orderless =
        (((completed? (a.window.add r)).bind fun w => completed? (w.add q)).map
          Window.orderless).map fun w => ⟨a.name, w, ((a.totals.add r).add q).orderless⟩ := by
    rw [completed?_add]
    cases completed? (a.window.add r) with
    | none => rfl
    | some w =>
      show (completed? (add _ q)).map _ = _
      rw [completed?_add, Option.map_map, Option.bind_some, Option.map_map]
      rfl
  have htotals : ((a.totals.add r).add q).orderless = ((a.totals.add q).add r).orderless := by
    simp only [Totals.orderless, Totals.add, Tally.count_right_comm _ r.outcome,
      Span.max_right_comm _ r.latency]
  rw [htwo, htwo, Window.add_comm, htotals]

end Account

/-! ### Two records at a ledger -/

namespace Ledger

/-- The ledger with another account of a client that has one. -/
def replace (l : Ledger) (c : ClientId) (a : Account) : Ledger := l.modify c fun _ => a

variable {l : Ledger} {c : ClientId} {r q : Record}

/-- What is put in the place of an account is found there. -/
theorem account?_replace {a : Account} (h : l.account? c = some a) (b : Account) :
    (l.replace c b).account? c = some b := by
  rw [replace, account?_modify, if_pos rfl, h]
  rfl

/-- The accounts of other clients stay. -/
theorem account?_replace_of_ne {other : ClientId} (hne : other ≠ c) (b : Account) :
    (l.replace c b).account? other = l.account? other := by
  rw [replace, account?_modify, if_neg hne]

/-- Only the account of the client is replaced. -/
theorem modify_congr {a : Account} (ha : l.account? c = some a) {f g : Account → Account}
    (h : f a = g a) : l.modify c f = l.modify c g := by
  refine congrArg (Ledger.mk · l.closed) (Accounts.modify_congr fun b hb => ?_)
  have hsame : some b = some a := hb.symm.trans ha
  rw [Option.some.inj hsame, h]

/-- The last of two replacements counts. -/
theorem replace_replace (a b : Account) : (l.replace c a).replace c b = l.replace c b :=
  congrArg (Ledger.mk · l.closed) (Accounts.modify_modify c _ _ l.accounts)

/-- Replacements of two accounts may change places. -/
theorem replace_comm {other : ClientId} (hne : c ≠ other) (a b : Account) :
    (l.replace c a).replace other b = (l.replace other b).replace c a :=
  congrArg (Ledger.mk · l.closed) (Accounts.modify_comm hne _ _ l.accounts)

/-- What does not depend on the order is replaced likewise. -/
theorem orderless_replace (b : Account) :
    (l.replace c b).orderless = l.orderless.replace c b.orderless :=
  congrArg (Ledger.mk · l.closed) (Accounts.orderless_modify_const c b l.accounts)

/-- Does the ledger take in records of the client? -/
def admits (l : Ledger) (c : ClientId) : Bool := !l.closed && decide (c ∈ l.clients)

/-- A ledger that admits records of a client is open and has its account. -/
theorem known_of_admits (h : l.admits c = true) :
    l.closed = false ∧ ∃ a, l.account? c = some a := by
  rw [← Option.isSome_iff_exists, account?_isSome_iff]
  simpa [admits] using h

/-- A record does not change which records are admitted. -/
theorem admits_record (l : Ledger) (r : Record) : (l.record r).1.admits c = l.admits c := by
  rw [admits, admits, closed_record, clients_record]

/-- A record that is not admitted changes nothing. -/
theorem completed?_record_of_not_admits (h : l.admits r.client = false) :
    completed? (l.record r) = some l := by
  have hrefused : l.record r = (l, .ok false) := by
    rw [record]
    split
    · rfl
    next hopen =>
      have hunknown : l.account? r.client = none := by
        rw [← Option.not_isSome_iff_eq_none, account?_isSome_iff]
        simpa [admits, hopen] using h
      rw [hunknown]
  rw [hrefused]
  rfl

/-- A record is added to the account of its client. -/
theorem completed?_record {a : Account} (hopen : l.closed = false)
    (ha : l.account? r.client = some a) :
    completed? (l.record r) = (completed? (a.add r)).map (l.replace r.client) := by
  have hreplace : (l.modify r.client fun b => (b.add r).1) = l.replace r.client (a.add r).1 :=
    modify_congr ha rfl
  have hrecord : l.record r =
      (l.replace r.client (a.add r).1, (a.add r).2.map fun _ => true) := by
    rw [record, hopen, ha, ← hreplace]
    rfl
  rw [hrecord, completed?_map]

/-- A record that is refused is refused before and after another one. -/
theorem record_comm_of_not_admits (h : l.admits r.client = false) :
    ((completed? (l.record r)).bind fun m => completed? (m.record q)) =
      (completed? (l.record q)).bind fun m => completed? (m.record r) := by
  rw [completed?_record_of_not_admits h, Option.bind_some]
  cases hq : completed? (l.record q) with
  | none => rfl
  | some m =>
    have hm : m.admits r.client = false := by rw [eq_of_completed? hq, admits_record, h]
    rw [Option.bind_some, completed?_record_of_not_admits hm]

section Known

variable {a b : Account} (hopen : l.closed = false)

include hopen

/-- Two records of one client go to its account one after the other. -/
theorem record_record_of_eq (ha : l.account? r.client = some a) (hsame : q.client = r.client) :
    ((completed? (l.record r)).bind fun m => completed? (m.record q)) =
      ((completed? (a.add r)).bind fun b => completed? (b.add q)).map (l.replace r.client) := by
  rw [completed?_record hopen ha]
  cases completed? (a.add r) with
  | none => rfl
  | some b =>
    have hown : (l.replace r.client b).account? q.client = some b :=
      hsame ▸ account?_replace ha b
    have hnext := completed?_record (l := l.replace r.client b) hopen hown
    rw [Option.map_some, Option.bind_some, hnext, hsame, Option.bind_some]
    exact congrArg (Option.map · _) (funext (replace_replace b))

/-- Two records of different clients go to different accounts. -/
theorem record_record_of_ne (ha : l.account? r.client = some a)
    (hb : l.account? q.client = some b) (hne : r.client ≠ q.client) :
    ((completed? (l.record r)).bind fun m => completed? (m.record q)) =
      (completed? (a.add r)).bind fun a' => (completed? (b.add q)).map
        ((l.replace r.client a').replace q.client) := by
  rw [completed?_record hopen ha]
  cases completed? (a.add r) with
  | none => rfl
  | some a' =>
    have hother : (l.replace r.client a').account? q.client = some b :=
      (account?_replace_of_ne hne.symm a').trans hb
    exact completed?_record hopen hother

/-- Two records of one client may change places, since their account does not mind. -/
theorem record_comm_of_eq (ha : l.account? r.client = some a) (hsame : q.client = r.client) :
    ((completed? (l.record r)).bind fun m => completed? (m.record q)).map orderless =
      ((completed? (l.record q)).bind fun m => completed? (m.record r)).map orderless := by
  have ha' : l.account? q.client = some a := hsame ▸ ha
  have hreplace : orderless ∘ l.replace r.client =
      l.orderless.replace r.client ∘ Account.orderless := funext orderless_replace
  rw [record_record_of_eq hopen ha hsame, record_record_of_eq hopen ha' hsame.symm, hsame,
    Option.map_map, Option.map_map, hreplace, ← Option.map_map, ← Option.map_map,
    Account.add_comm]

/-- Two records of different clients may change places, since they reach different accounts. -/
theorem record_comm_of_ne (ha : l.account? r.client = some a)
    (hb : l.account? q.client = some b) (hne : r.client ≠ q.client) :
    ((completed? (l.record r)).bind fun m => completed? (m.record q)) =
      (completed? (l.record q)).bind fun m => completed? (m.record r) := by
  rw [record_record_of_ne hopen ha hb hne, record_record_of_ne hopen hb ha hne.symm]
  cases completed? (a.add r) with
  | none => cases completed? (b.add q) <;> rfl
  | some a' =>
    cases completed? (b.add q) with
    | none => rfl
    | some b' => exact congrArg some (replace_comm hne a' b')

end Known

/-- Two records leave the ledger alike in either order, or one ends in a fault in both. -/
theorem record_comm (l : Ledger) (r q : Record) :
    ((completed? (l.record r)).bind fun m => completed? (m.record q)).map orderless =
      ((completed? (l.record q)).bind fun m => completed? (m.record r)).map orderless := by
  by_cases hr : l.admits r.client
  · by_cases hq : l.admits q.client
    · obtain ⟨hopen, a, ha⟩ := known_of_admits hr
      obtain ⟨-, b, hb⟩ := known_of_admits hq
      by_cases hsame : q.client = r.client
      · exact record_comm_of_eq hopen ha hsame
      · exact congrArg _ (record_comm_of_ne hopen ha hb fun h => hsame h.symm)
    · exact congrArg _ (record_comm_of_not_admits (Bool.eq_false_iff.mpr hq)).symm
  · exact congrArg _ (record_comm_of_not_admits (Bool.eq_false_iff.mpr hr))

/-! ### Many records -/

/-- The ledger after records one after the other, if none of them ends in a fault. -/
def recordAll? (l : Ledger) : List Record → Option Ledger
  | [] => some l
  | r :: rest => (completed? (l.record r)).bind fun m => m.recordAll? rest

/-- Ledgers that agree but for the order agree after the same records. -/
theorem recordAll?_congr {m : Ledger} (h : l.orderless = m.orderless) (rs : List Record) :
    (l.recordAll? rs).map orderless = (m.recordAll? rs).map orderless := by
  induction rs generalizing l m with
  | nil => exact congrArg some h
  | cons r rest ih =>
    obtain ⟨hl, hlresult⟩ := l.record_orderless r
    obtain ⟨hm, hmresult⟩ := m.record_orderless r
    rw [h] at hl hlresult
    have hfirst : (completed? (l.record r)).map orderless =
        (completed? (m.record r)).map orderless :=
      completed?_congr (hl.symm.trans hm) (hlresult.symm.trans hmresult)
    exact map_bind_congr hfirst fun _ _ hnext => ih hnext

/-- Records leave the ledger alike in every order, or end in a fault in every order. -/
theorem recordAll?_perm {rs qs : List Record} (hperm : rs.Perm qs) (l : Ledger) :
    (l.recordAll? rs).map orderless = (l.recordAll? qs).map orderless := by
  -- A permutation is made of exchanges of neighbours, which commute up to the sums only; so what
  -- comes behind them starts from ledgers that differ in the sums.
  induction hperm generalizing l with
  | nil => rfl
  | cons r _ ih =>
    refine map_bind_congr rfl fun m n hmn => ?_
    exact (ih m).trans (recordAll?_congr hmn _)
  | swap r q rest =>
    have htwo (r q : Record) : l.recordAll? (r :: q :: rest) =
        ((completed? (l.record r)).bind fun m => completed? (m.record q)).bind
          fun m => m.recordAll? rest := (Option.bind_assoc _ _ _).symm
    rw [htwo, htwo]
    exact map_bind_congr (record_comm l q r) fun _ _ hmn => recordAll?_congr hmn rest
  | trans _ _ ih ih' => exact (ih l).trans (ih' l)

end Ledger

namespace Replay

/-- No operation ends in a fault. -/
def Faultless (s : Replay) (ops : List Operation) : Prop :=
  ∀ answer ∈ (s.performAll ops).2, answer.fault? = none

/-- Records one after the other, as operations. -/
theorem performAll_record (s : Replay) (rs : List Record) :
    (s.Faultless (rs.map .record) ↔ (s.ledger.recordAll? rs).isSome) ∧
      ∀ l, s.ledger.recordAll? rs = some l →
        (s.performAll (rs.map .record)).1 = ⟨s.now, l⟩ := by
  induction rs generalizing s with
  | nil =>
    refine ⟨iff_of_true (fun answer h => absurd h List.not_mem_nil) rfl, fun l hl => ?_⟩
    cases hl
    rfl
  | cons r rest ih =>
    obtain ⟨hclean, hlast⟩ := ih ⟨s.now, (s.ledger.record r).1⟩
    -- The first record is answered without a fault, and then the others are.
    have hcons : s.Faultless ((r :: rest).map .record) ↔
        (Answer.recorded (s.ledger.record r).2).fault? = none ∧
          Faultless ⟨s.now, (s.ledger.record r).1⟩ (rest.map .record) := List.forall_mem_cons
    rw [hcons, hclean, Ledger.recordAll?, completed?]
    cases hresult : (s.ledger.record r).2 with
    | error fault => simp [Answer.fault?]
    | ok taken => exact ⟨by simp [Answer.fault?], hlast⟩

/-- **The order of records does not matter.** Records that reach a ledger in two orders end in a
fault in both or in none. If in none, then whatever happens later is answered alike, above all every
cut of a window, and the totals are the same, but for the sums of the data moved. -/
theorem order_indifferent (s : Replay) {rs qs : List Record} (hperm : rs.Perm qs) :
    (s.Faultless (rs.map .record) ↔ s.Faultless (qs.map .record)) ∧
    (s.Faultless (rs.map .record) → ∀ later : List Operation,
      let one := (s.performAll (rs.map .record)).1.performAll later
      let other := (s.performAll (qs.map .record)).1.performAll later
      one.2.map Answer.orderless = other.2.map Answer.orderless ∧
        one.1.ledger.totals.map (fun entry => (entry.1, entry.2.orderless)) =
          other.1.ledger.totals.map fun entry => (entry.1, entry.2.orderless)) := by
  have hall := Ledger.recordAll?_perm hperm s.ledger
  obtain ⟨hclean, hlast⟩ := s.performAll_record rs
  obtain ⟨hclean', hlast'⟩ := s.performAll_record qs
  -- Both orders end well or neither does, as the ledgers they lead to agree but for the order.
  have hsome : (s.ledger.recordAll? rs).isSome = (s.ledger.recordAll? qs).isSome := by
    rw [← Option.isSome_map (f := Ledger.orderless), hall, Option.isSome_map]
  refine ⟨by rw [hclean, hclean', hsome], fun hfaultless later => ?_⟩
  obtain ⟨l, hl⟩ := Option.isSome_iff_exists.mp (hclean.mp hfaultless)
  obtain ⟨m, hm⟩ := Option.isSome_iff_exists.mp (hsome ▸ hclean.mp hfaultless)
  rw [hl, hm] at hall
  rw [hlast l hl, hlast' m hm]
  have hsame : Replay.orderless ⟨s.now, l⟩ = Replay.orderless ⟨s.now, m⟩ :=
    congrArg (Replay.mk s.now) (Option.some.inj hall)
  obtain ⟨hend, hanswers⟩ := performAll_congr hsame later
  refine ⟨hanswers, ?_⟩
  rw [← Ledger.totals_orderless, ← Ledger.totals_orderless]
  exact congrArg (fun t => t.ledger.totals) hend

/-- Three records of one client with different latencies and outcomes, and one of another client
between them. -/
def mixedRecords : List Record :=
  [⟨7, 0, Span.zero, Span.ofMillis 3, 0.1, 0.2, .success⟩,
    ⟨8, 0, Span.zero, Span.ofMillis 9, 0.3, 0.1, .success⟩,
    ⟨7, 1, Span.ofMillis 1, Span.ofMillis 8, 0.2, 0.3, .timeout⟩,
    ⟨7, 2, Span.ofMillis 2, Span.ofMillis 4, 0.3, 0.4, .failure⟩]

/-- Backwards, the records give the same windows at the cut and at the flush. -/
theorem order_indifferent_mixedRecords :
    let s := ((openedAt Span.zero twoClients).performAll cutThenFlush.dropLast.dropLast).1
    let one := (s.performAll (mixedRecords.map .record)).1.performAll [.take 7, .flush]
    let other := (s.performAll (mixedRecords.reverse.map .record)).1.performAll [.take 7, .flush]
    s.Faultless (mixedRecords.map .record) ∧
      one.2.map Answer.orderless = other.2.map Answer.orderless := by
  intro s one other
  have hfaultless : s.Faultless (mixedRecords.map .record) := by
    show ∀ answer ∈ (s.performAll (mixedRecords.map .record)).2, answer.fault? = none
    decide +kernel
  obtain ⟨-, hafter⟩ := order_indifferent s (List.reverse_perm mixedRecords).symm
  exact ⟨hfaultless, (hafter hfaultless [.take 7, .flush]).1⟩

end Replay

end ClosedLoop
