import ClosedLoop.Proofs.Stats.Books
import ClosedLoop.Proofs.Stats.Mean

namespace ClosedLoop

/-!
# The open windows of a ledger

* `Ledger.Windows` — every open window has a property, which the operations preserve if a fresh
  window has it and records keep it;
* `Ledger.startOf?` — when the open window of a client began, which its next snapshot tells;
* `Ledger.take_ok_iff`, `Ledger.flush_ok_iff` — which cuts fail; `Ledger.take_ok`, `Ledger.flush_ok`
  — none does if no call took longer than the range of the clock.
-/

/-- A fresh window is within any bound. -/
theorem Window.within_openAt (bound : Nat) (now : Span) : (Window.openAt now).Within bound :=
  Nat.zero_le _

/-- A call that is not longer than the bound keeps a window within it. -/
theorem Window.Within.add {bound : Nat} {w : Window} (h : w.Within bound) {r : Record}
    (hr : r.latency.nanos ≤ bound) : (w.add r).1.Within bound := by
  unfold Window.Within at *
  -- The call is counted in any case, its latency only if the sum is a span.
  cases hsum : w.latencySum.add? r.latency with
  | none =>
    simp only [Window.add, hsum, Window.countRecord, Tally.requests_count, Nat.add_mul, Nat.one_mul]
    omega
  | some sum =>
    have hnanos := Span.nanos_of_add? hsum
    simp only [Window.add, hsum, Window.countRecord, Window.addLatency, Tally.requests_count,
      Nat.add_mul, Nat.one_mul]
    omega

/-- Renewing an account opens a new window. -/
theorem Account.window_renew (a : Account) (now : Span) :
    (a.renew now).window = Window.openAt now := by
  unfold Account.renew
  split <;> rfl

/-- A request that is added to an account is added to its window. -/
theorem Account.window_add (a : Account) (r : Record) :
    (a.add r).1.window = (a.window.add r).1 := by
  unfold Account.add
  rcases a.window.add r with ⟨w, fault | ⟨⟩⟩ <;> rfl

/-- A window without activity needs no cut. -/
theorem Account.cut_ok_iff (a : Account) (client : ClientId) (now : Span) :
    (∃ shown, (a.cut client now).2 = .ok shown) ↔ a.window.Closable := by
  rw [Account.cut_eq]
  by_cases hempty : a.window.isEmpty
  · rw [if_pos hempty]
    refine iff_of_true ⟨none, rfl⟩ fun hone => ?_
    simp [Window.isEmpty, hone] at hempty
  · have hactive : 1 ≤ a.window.tally.requests := by
      simp only [Window.isEmpty, beq_iff_eq] at hempty
      omega
    rw [if_neg hempty, ← Window.close_ok_iff hactive client a.name now]
    cases a.window.close client a.name now <;> simp [Except.map]

/-- All windows can be cut if and only if each can. -/
theorem Accounts.cutAll_ok_iff (now : Span) (as : Accounts) :
    (∃ shown, (cutAll now as).2 = .ok shown) ↔ ∀ entry ∈ as, entry.2.window.Closable := by
  constructor
  · rintro ⟨shown, hshown⟩ entry hentry
    obtain ⟨-, -, hcuts⟩ := cutAll_ok hshown
    exact (entry.2.cut_ok_iff entry.1 now).mp ⟨_, hcuts entry hentry⟩
  · intro h
    refine cutAll_of_cut_ok fun entry hentry => ?_
    exact (entry.2.cut_ok_iff entry.1 now).mpr (h entry hentry)

namespace Ledger

variable {P : Window → Prop} {l : Ledger} {now : Span}

/-- Every open window has a property. -/
def Windows (P : Window → Prop) (l : Ledger) : Prop :=
  ∀ c a, l.account? c = some a → P a.window

/-- All windows of new accounts have just been opened. -/
theorem windows_openFor (hopen : P (Window.openAt now)) (profiles : List Profile) :
    (openFor profiles now).Windows P := by
  intro c a ha
  rw [account?_openFor] at ha
  obtain ⟨p, -, rfl⟩ := Option.map_eq_some_iff.mp ha
  exact hopen

/-- What the change of one account preserves is preserved in all accounts. -/
theorem Windows.modify (h : l.Windows P) {id : ClientId} {f : Account → Account}
    (hf : ∀ a, P a.window → P (f a).window) : (l.modify id f).Windows P := by
  intro c a ha
  rw [account?_modify] at ha
  by_cases hc : c = id
  · rw [if_pos hc] at ha
    obtain ⟨b, hb, rfl⟩ := Option.map_eq_some_iff.mp ha
    exact hf b (h c b hb)
  · rw [if_neg hc] at ha
    exact h c a ha

/-- Records preserve what adding a request to a window preserves. -/
theorem Windows.record (h : l.Windows P) {r : Record} (hr : ∀ w, P w → P (w.add r).1) :
    (l.record r).1.Windows P := by
  unfold Ledger.record
  split
  · exact h
  · split
    · exact h
    · refine h.modify fun a ha => ?_
      rw [Account.window_add]
      exact hr a.window ha

/-- The cut of a client puts a new window in the place of one. -/
theorem Windows.take (h : l.Windows P) (hopen : P (Window.openAt now)) (c : ClientId) :
    (l.take now c).1.Windows P := by
  unfold Ledger.take
  split
  · exact h
  · refine h.modify fun a _ => ?_
    rw [Account.window_renew]
    exact hopen

/-- A flush without a fault puts new windows in all places. -/
theorem Windows.flush (hopen : P (Window.openAt now)) {shown : List Snapshot}
    (hok : (l.flush now).2 = .ok shown) : (l.flush now).1.Windows P := by
  intro c a ha
  rw [account?_flush hok] at ha
  obtain ⟨b, -, rfl⟩ := Option.map_eq_some_iff.mp ha
  rw [Account.window_renew]
  exact hopen

/-! ### When windows begin -/

/-- When the open window of a client began. -/
def startOf? (l : Ledger) (c : ClientId) : Option Span := (l.account? c).map (·.window.start)

section Starts

variable {l : Ledger} {c : ClientId} {now : Span}

/-- The windows of all clients start when the ledger is opened. -/
theorem startOf?_openFor {profiles : List Profile} {p : Profile} (hp : p ∈ profiles) :
    (openFor profiles now).startOf? p.id = some now := by
  have hknown := (mem_clients_openFor profiles now p.id).mpr (List.mem_map_of_mem hp)
  rw [← account?_isSome_iff, account?_openFor, Option.isSome_map] at hknown
  obtain ⟨q, hq⟩ := Option.isSome_iff_exists.mp hknown
  rw [startOf?, account?_openFor, hq]
  rfl

/-- Records do not move the start of a window. -/
theorem startOf?_record (r : Record) : (l.record r).1.startOf? c = l.startOf? c := by
  unfold Ledger.record
  -- The record is refused once the ledger is closed, and when its client is not known.
  split
  · rfl
  · split
    · rfl
    · rw [startOf?, account?_modify]
      by_cases hc : c = r.client
      · rw [if_pos hc, Option.map_map]
        refine congrArg (Option.map · _) (funext fun a => ?_)
        show (a.add r).1.window.start = a.window.start
        rw [Account.window_add, Window.add]
        split <;> rfl
      · rw [if_neg hc]
        rfl

/-- A cut of the window of another client does not either. -/
theorem startOf?_take_of_ne {client : ClientId} (h : client ≠ c) :
    (l.take now client).1.startOf? c = l.startOf? c := by
  unfold Ledger.take
  split
  · rfl
  · rw [startOf?, account?_modify, if_neg h.symm]
    rfl

/-- A cut begins a new window. -/
theorem startOf?_take {start : Span} (h : l.startOf? c = some start) :
    (l.take now c).1.startOf? c = some now := by
  obtain ⟨a, ha, -⟩ := Option.map_eq_some_iff.mp h
  rw [Ledger.take, ha, startOf?, account?_modify, if_pos rfl, ha]
  show some (a.renew now).window.start = some now
  rw [Account.window_renew]
  rfl

/-- The snapshot of a cut goes from the start of its window to the present. -/
theorem stamps_of_take {s : Snapshot} (kept : (l.take now c).2 = .ok (some s)) :
    l.startOf? c = some s.start ∧ s.stop = max now s.start := by
  unfold Ledger.take at kept
  cases ha : l.account? c with
  | none => rw [ha] at kept; cases kept
  | some a =>
    rw [ha] at kept
    have hshown : s ∈ a.shownBy c now := by
      rw [Account.shownBy_ok kept]
      rfl
    obtain ⟨mean, rfl⟩ := Account.eq_of_shownBy hshown
    exact ⟨by rw [startOf?, ha]; rfl, rfl⟩

/-- The snapshots of a flush go from the starts of their windows to the present. -/
theorem stamps_of_flush (asc : l.accounts.Ascending) {shown : List Snapshot}
    (kept : (l.flush now).2 = .ok shown) {s : Snapshot} (hs : s ∈ shown) :
    l.startOf? s.client = some s.start ∧ s.stop = max now s.start := by
  have hcut : (l.accounts.cutAll now).2 = .ok shown := kept
  obtain ⟨-, rfl, -⟩ := Accounts.cutAll_ok hcut
  obtain ⟨entry, hentry, hmem⟩ := List.mem_flatMap.mp hs
  obtain ⟨mean, rfl⟩ := Account.eq_of_shownBy (Option.mem_toList.mp hmem)
  have haccount : l.account? entry.1 = some entry.2 := asc.lookup_eq hentry
  refine ⟨?_, rfl⟩
  show l.startOf? entry.1 = _
  rw [startOf?, haccount]
  rfl

end Starts

/-! ### Which cuts fail -/

/-- A client can be cut if its window can be closed, or if it is not known. -/
theorem take_ok_iff (l : Ledger) (now : Span) (c : ClientId) :
    (∃ shown, (l.take now c).2 = .ok shown) ↔
      ∀ a, l.account? c = some a → a.window.Closable := by
  unfold Ledger.take
  cases hfound : l.account? c with
  | none => exact iff_of_true ⟨none, rfl⟩ fun a ha => nomatch ha
  | some a =>
    refine (a.cut_ok_iff c now).trans ⟨?_, fun h => h a rfl⟩
    rintro h b ⟨⟩
    exact h

/-- The flush is without a fault if all windows can be closed. -/
theorem flush_ok_iff (asc : l.accounts.Ascending) (now : Span) :
    (∃ shown, (l.flush now).2 = .ok shown) ↔ l.Windows Window.Closable := by
  refine (Accounts.cutAll_ok_iff now l.accounts).trans ⟨?_, ?_⟩
  · intro h c a ha
    exact h (c, a) (Accounts.mem_of_lookup ha)
  · intro h entry hentry
    exact h entry.1 entry.2 (asc.lookup_eq hentry)

/-- While the times are within range, every client can be cut. -/
theorem take_ok (h : l.Windows (Window.Within Clock.range)) (now : Span) (c : ClientId) :
    ∃ shown, (l.take now c).2 = .ok shown :=
  (l.take_ok_iff now c).mpr fun a ha => (h c a ha).closable

/-- While the times are within range, the clients can be flushed. -/
theorem flush_ok (asc : l.accounts.Ascending) (h : l.Windows (Window.Within Clock.range))
    (now : Span) : ∃ shown, (l.flush now).2 = .ok shown :=
  (flush_ok_iff asc now).mpr fun c a ha => (h c a ha).closable

end Ledger

end ClosedLoop
