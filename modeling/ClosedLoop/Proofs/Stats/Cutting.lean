import ClosedLoop.Proofs.Stats.MeanError
import ClosedLoop.Proofs.Stats.Tiling
import ClosedLoop.Proofs.Stats.Windows

namespace ClosedLoop

/-!
# Which windows can be cut, and what their means are

The operations keep every open window within its own maximum, so the mean of a snapshot is hardly
beyond it. A cut fails for a window with one call of almost the longest span, and for no other.

* `Window.Balanced` — a window whose latencies add up to at most its maximum for each call;
* `Replay.windows_perform`, `Replay.windows_performAll` — what every record and every cut keeps
  holds of all open windows;
* `Replay.exists_shownBy` — whose window a snapshot shows;
* `Replay.cuts_plausible` — **which cuts fail, and how large a mean can be**, after any operations.
-/

/-! ### Windows within their maximum -/

/-- A larger bound is a bound. -/
theorem Window.Within.mono {w : Window} {bound limit : Nat} (h : w.Within bound)
    (hle : bound ≤ limit) : w.Within limit :=
  Nat.le_trans h (Nat.mul_le_mul_left _ hle)

/-- The latencies of a window add up to at most its maximum for each call. -/
def Window.Balanced (w : Window) : Prop := w.Within w.latencyMax.nanos

/-- A new window is balanced. -/
theorem Window.balanced_openAt (now : Span) : (Window.openAt now).Balanced :=
  Window.within_openAt 0 now

/-- A record keeps a window balanced. -/
theorem Window.Balanced.add {w : Window} (h : w.Balanced) (r : Record) :
    (w.add r).1.Balanced := by
  cases hsum : w.latencySum.add? r.latency with
  | none =>
    -- The call is counted without its latency.
    have hmore : w.tally.requests ≤ (w.tally.count r.outcome).requests := by
      rw [Tally.requests_count]
      omega
    rw [Window.add, hsum]
    exact Nat.le_trans h (Nat.mul_le_mul_right _ hmore)
  | some sum =>
    have hmax : (w.add r).1.latencyMax = max w.latencyMax r.latency := by
      rw [Window.add, hsum]
      rfl
    rw [Window.Balanced, hmax, Span.nanos_max]
    exact Window.Within.add (h.mono (Nat.le_max_left _ _)) (Nat.le_max_right _ _)

/-- The mean is at most the maximum and one part in `2 ^ 49` of it. A smaller part than a nanosecond
    does not count. -/
def LatencySummary.Plausible (l : LatencySummary) : Prop :=
  l.mean.nanos ≤ l.max.nanos + l.max.nanos / 2 ^ 49

/-- The latencies of a snapshot of a balanced window are plausible. -/
theorem Account.plausible_of_shownBy {a : Account} {client : ClientId} {now : Span} {s : Snapshot}
    (h : a.window.Balanced) (hs : s ∈ a.shownBy client now) : s.latency.Plausible := by
  obtain ⟨hactive, hclose⟩ := Account.close_of_shownBy hs
  obtain ⟨mean, hmean, rfl⟩ := Window.close_ok hclose
  exact Window.mean_le hactive h hmean

/-! ### All open windows -/

namespace Replay

variable {P : Window → Prop} {s : Replay}

/-- What fresh windows have and records keep is kept by every operation, also by one that ends in a
    fault. -/
theorem windows_perform (hopen : ∀ now, P (Window.openAt now))
    (hadd : ∀ w r, P w → P (w.add r).1) (asc : s.ledger.accounts.Ascending)
    (h : s.ledger.Windows P) (op : Operation) : (s.perform op).1.ledger.Windows P := by
  intro c a ha
  rw [account?_perform asc op] at ha
  obtain ⟨b, hb, rfl⟩ := Option.map_eq_some_iff.mp ha
  -- The operation adds a record to the account, opens a new window, or does not concern it.
  cases s.event? c op with
  | none => exact h c b hb
  | some e =>
    cases e with
    | counted e =>
      show P (b.add e.counted).1.window
      rw [Account.window_add]
      exact hadd b.window e.counted (h c b hb)
    | cut now result =>
      show P (b.renew now).window
      rw [Account.window_renew]
      exact hopen now

/-- What holds of new windows and is kept by records holds of all windows after any operations. -/
theorem windows_performAll (hopen : ∀ now, P (Window.openAt now))
    (hadd : ∀ w r, P w → P (w.add r).1) (asc : s.ledger.accounts.Ascending)
    (h : s.ledger.Windows P) (ops : List Operation) :
    (s.performAll ops).1.ledger.Windows P := by
  induction ops generalizing s with
  | nil => exact h
  | cons op rest ih =>
    exact ih (ascending_perform asc op) (windows_perform hopen hadd asc h op)

/-- After any operations the accounts are in order and their windows within their maximum. -/
theorem balanced_performAll (begun : Span) (profiles : List Profile) (ops : List Operation) :
    ((openedAt begun profiles).performAll ops).1.ledger.accounts.Ascending ∧
      ((openedAt begun profiles).performAll ops).1.ledger.Windows Window.Balanced := by
  have asc := Ledger.ascending_openFor profiles begun
  refine ⟨ascending_performAll asc ops, ?_⟩
  exact windows_performAll Window.balanced_openAt (fun _ r hw => hw.add r) asc
    (Ledger.windows_openFor (Window.balanced_openAt begun) profiles) ops

/-- A snapshot that an operation gives out shows the open window of its client. -/
theorem exists_shownBy (asc : s.ledger.accounts.Ascending) {op : Operation} {t : Snapshot}
    (ht : t ∈ (s.perform op).2.snapshots) :
    ∃ a, s.ledger.account? t.client = some a ∧ t ∈ a.shownBy t.client s.now := by
  -- Snapshots are told apart by client, and then by what was cut.
  have hmine : t ∈ (s.perform op).2.snapshots.filter (·.client = t.client) :=
    List.mem_filter.mpr ⟨ht, decide_eq_true rfl⟩
  rw [shown_perform asc op] at hmine
  obtain ⟨e, hevent, hshown⟩ := List.mem_filterMap.mp hmine
  have hevent := Option.mem_toList.mp hevent
  cases e with
  | counted e => cases hshown
  | cut now result =>
    cases result with
    | error fault => cases hshown
    | ok shown =>
      obtain ⟨rfl, hcut⟩ := cut_of_event? asc hevent
      obtain ⟨a, ha, hok⟩ := hcut shown rfl
      refine ⟨a, ha, ?_⟩
      rw [Account.shownBy_ok hok]
      exact hshown

/-- **Cuts and means**: after any operations, with faults among them or not, a client's window can
    be cut unless its only call took almost the longest span, and all windows can be cut if each
    can. The mean of every snapshot is at most its maximum, or beyond it by one part in `2 ^ 49`.
    -/
theorem cuts_plausible (begun : Span) (profiles : List Profile) (ops : List Operation) :
    let s := ((openedAt begun profiles).performAll ops).1
    (∀ c, (s.perform (.take c)).2.fault? = none ↔
      ∀ a, s.ledger.account? c = some a → a.window.Closable) ∧
    ((s.perform .flush).2.fault? = none ↔
      ∀ c a, s.ledger.account? c = some a → a.window.Closable) ∧
    ∀ op, ∀ t ∈ (s.perform op).2.snapshots, t.latency.Plausible := by
  intro s
  obtain ⟨asc, hbalanced⟩ := balanced_performAll begun profiles ops
  refine ⟨fun c => ?_, ?_, fun op t ht => ?_⟩
  -- An operation is faultless exactly if the window it cuts, or each of them, can be closed.
  · rw [← Ledger.take_ok_iff s.ledger s.now c, perform_take]
    cases (s.ledger.take s.now c).2 <;> simp [Answer.fault?]
  · refine Iff.trans ?_ (Ledger.flush_ok_iff asc s.now)
    rw [perform_flush]
    cases (s.ledger.flush s.now).2 <;> simp [Answer.fault?]
  · obtain ⟨a, ha, hshown⟩ := exists_shownBy asc ht
    exact Account.plausible_of_shownBy (hbalanced t.client a ha) hshown

/-- A ledger of one client that has seen one call, which took that long. -/
def afterOneCall (latency : Span) : Replay :=
  ((start [Profile.blank 7 "a"]).performAll
    [.record ⟨7, 0, Span.zero, latency, 0, 0, .success⟩]).1

/-- The longest call is taken in, but neither operation can cut its window. The mean of a call of
    104 days is above its maximum by a nanosecond. -/
theorem cuts_plausible_fails :
    ((start [Profile.blank 7 "a"]).perform
        (.record ⟨7, 0, Span.zero, Span.longest, 0, 0, .success⟩)).2.fault? = none ∧
      ((afterOneCall Span.longest).perform (.take 7)).2.fault? = some (.seconds .tooLarge) ∧
      ((afterOneCall Span.longest).perform .flush).2.fault? = some (.seconds .tooLarge) ∧
      ((afterOneCall (Span.clamp 9000000004000000)).perform (.take 7)).2.snapshots.map
        (fun t => (t.latency.mean.nanos, t.latency.max.nanos))
          = [(9000000004000001, 9000000004000000)] := by
  decide +kernel

end Replay

end ClosedLoop
