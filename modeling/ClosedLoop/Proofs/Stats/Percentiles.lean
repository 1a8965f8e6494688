import ClosedLoop.Proofs.Stats.Ranks
import ClosedLoop.Proofs.Stats.Windows
import Mathlib.Tactic.NormNum

namespace ClosedLoop

/-!
# What the percentiles of a window tell about its latencies

* `Window.addAll`, `Window.taken` — a window after many records, and the latencies that it has taken
  in of them: all, if together they are a span (`Window.taken_eq_map`);
* `Snapshot.Summarizes` — what a snapshot makes of latencies: an exact maximum, and for each
  percentile the top of the bucket of what is kept of them, clamped by the maximum;
* `Window.summarizes_of_close` — every cut shows that of the latencies taken in;
* `Window.percentiles_accurate` — **a percentile is as accurate as a bucket**, up to one hour;
* `Window.percentiles_ordered` — **percentiles ascend**, below an exact maximum;
* `Window.slower_window` — **a slower window has greater percentiles**, with an exception for
  latencies above one hour, which `Window.slower_window_fails` shows to be one.
-/

open Histogram (bucketTop hour rank stored)

namespace Window

/-! ### Many records -/

/-- The window after records, whether their latencies find room or not. -/
def addAll (w : Window) (rs : List Record) : Window := rs.foldl (fun w r => (w.add r).1) w

/-- The latencies of records that find room in the sum of a window. -/
def taken (w : Window) : List Record → List Span
  | [] => []
  | r :: rest =>
    if (w.latencySum.add? r.latency).isSome then r.latency :: (w.add r).1.taken rest
    else (w.add r).1.taken rest

variable {w : Window} {r : Record} {rs : List Record}

/-- The first record comes in before the others. -/
theorem addAll_cons (w : Window) (r : Record) (rs : List Record) :
    w.addAll (r :: rs) = (w.add r).1.addAll rs := rfl

/-- A latency that finds room is taken in. -/
theorem taken_cons_of_some {sum : Span} (h : w.latencySum.add? r.latency = some sum) :
    w.taken (r :: rs) = r.latency :: (w.add r).1.taken rs := by
  rw [taken, h]
  rfl

/-- A latency without room is not. -/
theorem taken_cons_of_none (h : w.latencySum.add? r.latency = none) :
    w.taken (r :: rs) = (w.add r).1.taken rs := by
  rw [taken, h]
  rfl

/-- A latency that finds room goes into the maximum and into the histogram. -/
theorem add_of_some {sum : Span} (h : w.latencySum.add? r.latency = some sum) :
    (w.add r).1.latencyMax = max w.latencyMax r.latency ∧
      (w.add r).1.latencies = w.latencies.add r.latency := by
  rw [add, h]
  exact ⟨rfl, rfl⟩

/-- One that does not is not kept. -/
theorem add_of_none (h : w.latencySum.add? r.latency = none) :
    (w.add r).1.latencyMax = w.latencyMax ∧ (w.add r).1.latencies = w.latencies := by
  rw [add, h]
  exact ⟨rfl, rfl⟩

/-- All latencies find room if together they are a span. -/
theorem taken_eq_map (hroom : w.latencySum.nanos + (rs.map (·.latency.nanos)).sum <
    UInt64.size * 1000000000) : w.taken rs = rs.map Record.latency := by
  induction rs generalizing w with
  | nil => rfl
  | cons r rest ih =>
    -- What is left for the others is the room without the first latency.
    rw [List.map_cons, List.sum_cons] at hroom
    have hlt : w.latencySum.nanos + r.latency.nanos < UInt64.size * 1000000000 := by omega
    have hsum : w.latencySum.add? r.latency = some ⟨_, hlt⟩ := by
      rw [Span.add?, Span.ofNanos?, dif_pos hlt]
    have hnext : (w.add r).1.latencySum = ⟨_, hlt⟩ := by
      rw [add, hsum]
      rfl
    rw [taken_cons_of_some hsum, List.map_cons, ih]
    rw [hnext]
    show w.latencySum.nanos + r.latency.nanos + _ < _
    omega

/-- The maximum is not less than any latency taken in, and it is one of them unless it is the one
    before. -/
theorem latencyMax_addAll (w : Window) (rs : List Record) :
    w.latencyMax ≤ (w.addAll rs).latencyMax ∧
      (∀ a ∈ w.taken rs, a ≤ (w.addAll rs).latencyMax) ∧
      ((w.addAll rs).latencyMax = w.latencyMax ∨ (w.addAll rs).latencyMax ∈ w.taken rs) := by
  induction rs generalizing w with
  | nil => exact ⟨Nat.le_refl _, by simp [taken], .inl rfl⟩
  | cons r rest ih =>
    obtain ⟨hle, hall, hone⟩ := ih (w.add r).1
    rw [addAll_cons]
    -- A latency without room changes neither the maximum nor what was taken in.
    cases hsum : w.latencySum.add? r.latency with
    | none =>
      rw [taken_cons_of_none hsum]
      rw [(add_of_none hsum).1] at hle hone
      exact ⟨hle, hall, hone⟩
    | some sum =>
      rw [taken_cons_of_some hsum]
      rw [(add_of_some hsum).1] at hle hone
      simp only [Span.le_def, Span.nanos_max] at hle hall ⊢
      refine ⟨by omega, List.forall_mem_cons.mpr ⟨by omega, hall⟩, ?_⟩
      rcases hone with hold | hmem
      · -- Nothing later is greater than the greater one of the first two.
        rcases Nat.le_total w.latencyMax.nanos r.latency.nanos with h | h
        · have hlatency : max w.latencyMax r.latency = r.latency := by
            ext
            rw [Span.nanos_max, Nat.max_eq_right h]
          rw [hold, hlatency]
          exact .inr List.mem_cons_self
        · refine .inl (hold.trans (Span.ext ?_))
          rw [Span.nanos_max, Nat.max_eq_left h]
      · exact .inr (List.mem_cons_of_mem _ hmem)

/-- The histogram keeps one value for each latency taken in. -/
theorem values_addAll (w : Window) (rs : List Record) :
    (w.addAll rs).latencies.values.Perm
      ((w.taken rs).map (fun a => stored a.wholeMicros) ++ w.latencies.values) := by
  induction rs generalizing w with
  | nil => exact List.Perm.refl _
  | cons r rest ih =>
    have hrest := ih (w.add r).1
    rw [addAll_cons]
    -- The value of a latency that finds room is kept as the first one.
    cases hsum : w.latencySum.add? r.latency with
    | none =>
      rw [taken_cons_of_none hsum]
      rwa [(add_of_none hsum).2] at hrest
    | some sum =>
      rw [taken_cons_of_some hsum]
      rw [(add_of_some hsum).2] at hrest
      exact hrest.trans List.perm_middle

end Window

/-! ### What a snapshot shows -/

/-- The percentiles of a snapshot, each with its share of the latencies. -/
def Snapshot.percentiles (s : Snapshot) : List (ℚ × Span) :=
  [(1 / 2, s.latency.p50), (9 / 10, s.latency.p90), (99 / 100, s.latency.p99)]

/-- A snapshot sums up latencies: its maximum is the greatest one, and each percentile is the top of
    the bucket of a value that has its rank among those kept, unless the maximum is less. -/
structure Snapshot.Summarizes (s : Snapshot) (latencies : List Span) : Prop where
  max_mem : s.latency.max ∈ latencies
  le_max : ∀ a ∈ latencies, a ≤ s.latency.max
  kept : ∀ q p, (q, p) ∈ s.percentiles → ∃ v,
    Ranked (latencies.map fun a => stored a.wholeMicros) (max 1 ⌈q * latencies.length⌉₊) v ∧
      p.nanos = min (bucketTop v * 1000) s.latency.max.nanos

/-- The order of the latencies does not matter. -/
theorem Snapshot.Summarizes.perm {s : Snapshot} {as bs : List Span} (h : s.Summarizes as)
    (hperm : as.Perm bs) : s.Summarizes bs := by
  refine ⟨hperm.mem_iff.mp h.max_mem, fun b hb => h.le_max b (hperm.mem_iff.mpr hb), ?_⟩
  intro q p hp
  obtain ⟨v, hv, hnanos⟩ := h.kept q p hp
  rw [← hperm.length_eq]
  exact ⟨v, hv.perm (hperm.map _), hnanos⟩

namespace Window

/-- Calls of one client with these latencies. -/
def callsOf (latencies : List Span) : List Record :=
  latencies.map fun a => ⟨7, 0, Span.zero, a, 0.1, 0.2, .success⟩

section Cut

variable {start now : Span} {rs : List Record} {client : ClientId} {name : String} {s : Snapshot}

/-- The first latency always finds room. -/
theorem taken_ne_nil (start : Span) (hrs : rs ≠ []) : (openAt start).taken rs ≠ [] := by
  obtain ⟨r, rest, rfl⟩ := List.exists_cons_of_ne_nil hrs
  have hroom : (openAt start).latencySum.add? r.latency = some r.latency := by
    have hnanos : Span.zero.nanos + r.latency.nanos = r.latency.nanos := Nat.zero_add _
    show Span.ofNanos? (Span.zero.nanos + r.latency.nanos) = some r.latency
    rw [hnanos, Span.ofNanos?, dif_pos r.latency.nanos_lt]
  rw [taken_cons_of_some hroom]
  exact List.cons_ne_nil _ _

/-- A percentile of a window is the top of the bucket of a value that has its rank among those
    kept, unless the maximum is less. -/
theorem exists_percentile (hrs : rs ≠ []) {percent : Nat} (hpercent : percent ≤ 100) :
    ∃ v, Ranked (((openAt start).taken rs).map fun a => stored a.wholeMicros)
        (rank percent ((openAt start).taken rs).length) v ∧
      (((openAt start).addAll rs).percentile percent).nanos =
        min (bucketTop v * 1000) ((openAt start).addAll rs).latencyMax.nanos := by
  have hvalues := values_addAll (openAt start) rs
  have hfresh : (openAt start).latencies.values = [] := rfl
  rw [hfresh, List.append_nil] at hvalues
  have hlength := hvalues.length_eq
  rw [List.length_map] at hlength
  have hsome : ((openAt start).addAll rs).latencies.values ≠ [] := by
    intro hnil
    have htaken := List.length_pos_iff.mpr (taken_ne_nil start hrs)
    rw [hnil] at hlength
    simp only [List.length_nil] at hlength
    omega
  obtain ⟨v, hranked, htop⟩ := Histogram.ranked_percentile _ hsome hpercent
  rw [hlength] at hranked
  refine ⟨v, hranked.perm hvalues, ?_⟩
  -- What is kept is small enough for its bucket to be a span.
  obtain ⟨a, -, rfl⟩ := List.mem_map.mp (hranked.perm hvalues).mem
  have hkept := Histogram.stored_lt a.wholeMicros
  have hbucket := Histogram.bucketTop_le (stored a.wholeMicros)
  have hsize : UInt32.size = 4294967296 := rfl
  have hsize' : UInt64.size = 18446744073709551616 := rfl
  rw [percentile, Span.nanos_min, htop, Span.ofMicros, Span.clamp_of_lt (by omega)]

/-- **A cut sums up the latencies taken in.** -/
theorem summarizes_of_close (hrs : rs ≠ [])
    (hs : ((openAt start).addAll rs).close client name now = .ok s) :
    s.Summarizes ((openAt start).taken rs) := by
  obtain ⟨mean, -, rfl⟩ := Window.close_ok hs
  obtain ⟨-, hall, hone⟩ := latencyMax_addAll (openAt start) rs
  refine ⟨?_, hall, ?_⟩
  · rcases hone with hzero | hmem
    · -- The maximum is zero, and so is every latency.
      obtain ⟨a, ha⟩ := List.exists_mem_of_ne_nil _ (taken_ne_nil start hrs)
      have hle := hall a ha
      have hmax : a = ((openAt start).addAll rs).latencyMax := by
        ext
        rw [hzero, Span.le_def] at hle
        rw [hzero]
        exact Nat.le_zero.mp hle
      rwa [hmax] at ha
    · exact hmem
  · intro q p hp
    -- The three percentiles that are shown.
    have hpercent : ∃ percent : Nat, percent ≤ 100 ∧ q = percent / 100 ∧
        p = ((openAt start).addAll rs).percentile percent := by
      simp only [Snapshot.percentiles, List.mem_cons, List.not_mem_nil, or_false,
        Prod.mk.injEq] at hp
      rcases hp with ⟨rfl, rfl⟩ | ⟨rfl, rfl⟩ | ⟨rfl, rfl⟩
      · exact ⟨50, by omega, by norm_num, rfl⟩
      · exact ⟨90, by omega, by norm_num, rfl⟩
      · exact ⟨99, by omega, by norm_num, rfl⟩
    obtain ⟨percent, hle, rfl, rfl⟩ := hpercent
    rw [← Histogram.rank_eq_ceil]
    exact exists_percentile hrs hle

/-- **A percentile is as accurate as a bucket.** It is at least the value of its rank, in whole
    microseconds and up to one hour, and exceeds it by one part in 1024 at most, and never the
    maximum. Without latencies of more than 32 bits the limit of one hour does not matter. -/
theorem percentiles_accurate (hrs : rs ≠ [])
    (hs : ((openAt start).addAll rs).close client name now = .ok s) {q : ℚ} {p : Span}
    (hp : (q, p) ∈ s.percentiles) :
    ∃ v, Ranked (((openAt start).taken rs).map Span.wholeMicros)
        (max 1 ⌈q * ((openAt start).taken rs).length⌉₊) v ∧
      min v hour * 1000 ≤ p.nanos ∧ p.nanos ≤ (v + v / 1024) * 1000 ∧ p ≤ s.latency.max ∧
      ((∀ a ∈ (openAt start).taken rs, a.wholeMicros < UInt32.size) → v * 1000 ≤ p.nanos) := by
  have hshows := summarizes_of_close hrs hs
  generalize (openAt start).taken rs = latencies at hshows ⊢
  obtain ⟨kept, hkept, hnanos⟩ := hshows.kept q p hp
  obtain ⟨v, hv⟩ := hkept.exists_map Span.wholeMicros
  have htop := Histogram.le_bucketTop kept
  -- The latency of that rank is not above the maximum.
  have hmax : v * 1000 ≤ s.latency.max.nanos := by
    obtain ⟨a, ha, rfl⟩ := List.mem_map.mp hv.mem
    exact Nat.le_trans (Nat.div_mul_le_self _ _) (hshows.le_max a ha)
  have hhigh : kept ≤ v :=
    hkept.le_of_forall₂ hv (List.forall₂_same.mpr fun a _ => Histogram.stored_le a.wholeMicros)
  have hbucket := Nat.le_trans (Histogram.bucketTop_mono hhigh) (Histogram.bucketTop_le v)
  refine ⟨v, hv, ?_, by omega, by rw [Span.le_def]; omega, fun hall => ?_⟩
  · have hlow : min v hour ≤ kept :=
      (hv.bounded hour).le_of_forall₂ hkept
        (List.forall₂_same.mpr fun a _ => Histogram.min_le_stored a.wholeMicros)
    rw [hnanos]
    exact Nat.le_min.mpr ⟨Nat.mul_le_mul_right _ (Nat.le_trans hlow htop),
      Nat.le_trans (Nat.mul_le_mul_right _ (Nat.min_le_left v hour)) hmax⟩
  · have hexact : v ≤ kept := hv.le_of_forall₂ hkept
      (List.forall₂_same.mpr fun a ha => Nat.le_of_eq (Histogram.stored_of_lt (hall a ha)).symm)
    omega

/-- A millisecond and a half, three seconds, and more than an hour. -/
theorem percentiles_accurate_threeCalls :
    ∃ s, ((openAt Span.zero).addAll
        (callsOf [Span.ofMicros 1500, Span.ofMicros 3000000, Span.ofMicros 5000000000])).close
          7 "seven" Span.zero = .ok s ∧
      ∃ v, Ranked [1500, 3000000, 5000000000] (max 1 ⌈(99 / 100 * (3 : ℕ) : ℚ)⌉₊) v ∧
        min v hour * 1000 ≤ s.latency.p99.nanos ∧ s.latency.p99.nanos ≤ (v + v / 1024) * 1000 := by
  obtain ⟨s, hs⟩ := close_of_within (w := (openAt Span.zero).addAll
    (callsOf [Span.ofMicros 1500, Span.ofMicros 3000000, Span.ofMicros 5000000000]))
    (by decide +kernel) (by unfold Within; decide +kernel) 7 "seven" Span.zero
  obtain ⟨v, hv, hlow, hhigh, -, -⟩ :=
    percentiles_accurate (by simp [callsOf]) hs (q := 99 / 100) (.tail _ (.tail _ (.head _)))
  -- All three latencies find room, the last one as more than an hour.
  have hmicros : ((openAt Span.zero).taken (callsOf [Span.ofMicros 1500, Span.ofMicros 3000000,
      Span.ofMicros 5000000000])).map Span.wholeMicros = [1500, 3000000, 5000000000] := by
    rw [taken_eq_map (by decide +kernel)]
    decide +kernel
  have hlength := congrArg List.length hmicros
  rw [List.length_map] at hlength
  rw [hmicros, hlength] at hv
  exact ⟨s, hs, v, hv, hlow, hhigh⟩

/-- **Percentiles ascend, below an exact maximum.** The median is zero only if half of the latencies
    are shorter than a microsecond, or all are zero. -/
theorem percentiles_ordered (hrs : rs ≠ [])
    (hs : ((openAt start).addAll rs).close client name now = .ok s) :
    s.latency.p50 ≤ s.latency.p90 ∧ s.latency.p90 ≤ s.latency.p99 ∧
      s.latency.p99 ≤ s.latency.max ∧ s.latency.max ∈ (openAt start).taken rs ∧
      (∀ a ∈ (openAt start).taken rs, a ≤ s.latency.max) ∧
      (s.latency.p50 = Span.zero →
        ((openAt start).taken rs).length ≤
            2 * ((openAt start).taken rs).countP (· < Span.ofMicros 1) ∨
          s.latency.max = Span.zero) := by
  have hshows := summarizes_of_close hrs hs
  generalize (openAt start).taken rs = latencies at hshows ⊢
  obtain ⟨u, hu, h50⟩ := hshows.kept (1 / 2) s.latency.p50 (.head _)
  obtain ⟨v, hv, h90⟩ := hshows.kept (9 / 10) s.latency.p90 (.tail _ (.head _))
  obtain ⟨w, hw, h99⟩ := hshows.kept (99 / 100) s.latency.p99 (.tail _ (.tail _ (.head _)))
  -- Greater shares have greater ranks, whose values have greater buckets.
  have hrank {q q' : ℚ} (h : q ≤ q') :
      max 1 ⌈q * latencies.length⌉₊ ≤ max 1 ⌈q' * latencies.length⌉₊ :=
    max_le_max_left 1 (Nat.ceil_mono (mul_le_mul_of_nonneg_right h (Nat.cast_nonneg _)))
  have huv := Histogram.bucketTop_mono (hu.le_of_le hv (hrank (by norm_num)))
  have hvw := Histogram.bucketTop_mono (hv.le_of_le hw (hrank (by norm_num)))
  simp only [Span.le_def]
  refine ⟨by omega, by omega, by omega, hshows.max_mem, hshows.le_max, fun hzero => ?_⟩
  have htop := Histogram.le_bucketTop u
  rw [hzero, Span.nanos_zero] at h50
  rcases Nat.eq_zero_or_pos s.latency.max.nanos with hmax | hpos
  · exact .inr (Span.ext hmax)
  · -- Then nothing is kept of at least half of the latencies.
    have hnone : u = 0 := by omega
    have hmany := hu.2
    rw [hnone, List.countP_map] at hmany
    have hshort : latencies.countP ((fun x => decide (x ≤ 0)) ∘ fun a => stored a.wholeMicros) ≤
        latencies.countP (· < Span.ofMicros 1) := by
      refine List.countP_mono_left fun a _ ha => ?_
      have hkept := Histogram.min_le_stored a.wholeMicros
      simp only [Function.comp_apply, decide_eq_true_eq, hour, Span.wholeMicros] at ha hkept
      rw [decide_eq_true_eq, Span.lt_def]
      show a.nanos < 1000
      omega
    have hhalf : (latencies.length : ℚ) ≤ 2 * ⌈(1 / 2 * latencies.length : ℚ)⌉₊ := by
      have hceil := Nat.le_ceil (1 / 2 * latencies.length : ℚ)
      linarith
    have hhalf' : latencies.length ≤ 2 * ⌈(1 / 2 * latencies.length : ℚ)⌉₊ := by
      exact_mod_cast hhalf
    refine .inl ?_
    omega

/-- Two calls shorter than a microsecond, and a longer one between them. -/
theorem percentiles_ordered_shortCalls :
    ∃ s, ((openAt Span.zero).addAll
        (callsOf [Span.zero, Span.ofMicros 3, Span.zero])).close 7 "seven" Span.zero = .ok s ∧
      s.latency.p50 ≤ s.latency.p90 ∧ s.latency.p90 ≤ s.latency.p99 ∧
      s.latency.p99 ≤ Span.ofMicros 3 := by
  obtain ⟨s, hs⟩ := close_of_within (w := (openAt Span.zero).addAll
    (callsOf [Span.zero, Span.ofMicros 3, Span.zero]))
    (by decide +kernel) (by unfold Within; decide +kernel) 7 "seven" Span.zero
  obtain ⟨h50, h90, h99, -⟩ := percentiles_ordered (by simp [callsOf]) hs
  -- The maximum is computed by adding up the three calls.
  have hmax : s.latency.max = Span.ofMicros 3 := by
    obtain ⟨mean, -, rfl⟩ := close_ok hs
    show latencyMax _ = Span.ofMicros 3
    decide +kernel
  exact ⟨s, hs, h50, h90, hmax ▸ h99⟩

end Cut

/-! ### Two windows -/

section Two

variable {start start' now now' : Span} {rs rs' : List Record} {client client' : ClientId}
  {name name' : String} {s s' : Snapshot} {slower : List Span}

/-- Whatever is paired has a partner that is not less. -/
theorem exists_le_of_forall₂ {as bs : List Span} (h : List.Forall₂ (· ≤ ·) as bs) {a : Span}
    (ha : a ∈ as) : ∃ b ∈ bs, a ≤ b := by
  induction h with
  | nil => cases ha
  | @cons first b _ others hle _ ih =>
    rcases List.mem_cons.mp ha with rfl | hrest
    · exact ⟨b, List.mem_cons_self, hle⟩
    · obtain ⟨c, hc, hle⟩ := ih hrest
      exact ⟨c, List.mem_cons_of_mem b hc, hle⟩

/-- **A slower window has greater percentiles**, as far as one hour, and without that limit if no
    pair of latencies is reversed. -/
theorem slower_window (hrs : rs ≠ [])
    (hs : ((openAt start).addAll rs).close client name now = .ok s)
    (hs' : ((openAt start').addAll rs').close client' name' now' = .ok s')
    (hperm : slower.Perm ((openAt start').taken rs'))
    (hpair : List.Forall₂ (· ≤ ·) ((openAt start).taken rs) slower) :
    s.latency.max ≤ s'.latency.max ∧
    ∀ q p p', (q, p) ∈ s.percentiles → (q, p') ∈ s'.percentiles →
      min p (Span.ofMicros (bucketTop hour)) ≤ p' ∧
      (List.Forall₂ (fun a b => ¬Histogram.Reversed a.wholeMicros b.wholeMicros)
        ((openAt start).taken rs) slower → p ≤ p') := by
  have hrs' : rs' ≠ [] := by
    rintro rfl
    have hslower : slower = [] := hperm.eq_nil
    rw [hslower, List.forall₂_nil_right_iff] at hpair
    exact taken_ne_nil start hrs hpair
  have hshows := summarizes_of_close hrs hs
  have hshows' := (summarizes_of_close hrs' hs').perm hperm.symm
  generalize (openAt start).taken rs = latencies at hshows hpair ⊢
  -- The slower window has a latency that is no shorter than the longest one of the other.
  have hmax : s.latency.max ≤ s'.latency.max := by
    obtain ⟨b, hb, hle⟩ := exists_le_of_forall₂ hpair hshows.max_mem
    exact Nat.le_trans hle (hshows'.le_max b hb)
  refine ⟨hmax, fun q p p' hp hp' => ?_⟩
  obtain ⟨v, hv, hnanos⟩ := hshows.kept q p hp
  obtain ⟨u, hu, hnanos'⟩ := hshows'.kept q p' hp'
  rw [← hpair.length_eq] at hu
  have hmono (hle : v ≤ u) : p ≤ p' := by
    have htop := Histogram.bucketTop_mono hle
    rw [Span.le_def] at hmax ⊢
    omega
  -- What is kept up to an hour respects the order, so the bound on ranks carries over.
  constructor
  · have hbound : min v hour ≤ u :=
      (hv.bounded hour).le_of_forall₂ hu
        (hpair.imp fun a b hle => Histogram.min_stored_le (Nat.div_le_div_right hle))
    rw [Span.le_def, Span.nanos_min]
    rcases Nat.le_total v hour with hshort | hlong
    · rw [Nat.min_eq_left hshort] at hbound
      exact Nat.le_trans (Nat.min_le_left _ _) (hmono hbound)
    · -- Both values are at least one hour, and so is what answers the percentile.
      rw [Nat.min_eq_right hlong] at hbound
      have hhour : (Span.ofMicros (bucketTop hour)).nanos ≤ bucketTop u * 1000 :=
        Nat.le_trans (Nat.min_le_left _ _)
          (Nat.mul_le_mul_right 1000 (Histogram.bucketTop_mono hbound))
      have hclamp : p.nanos ≤ s'.latency.max.nanos := by
        rw [hnanos]
        exact Nat.le_trans (Nat.min_le_right _ _) hmax
      rw [hnanos']
      exact Nat.le_min.mpr ⟨Nat.le_trans (Nat.min_le_right _ _) hhour,
        Nat.le_trans (Nat.min_le_left _ _) hclamp⟩
  · intro hkept
    exact hmono (hv.le_of_forall₂ hu (hpair.mp
      (fun a b hle hkept => Histogram.stored_mono (Nat.div_le_div_right hle) hkept) hkept))

end Two

/-- Two calls against a longer one and one of more than an hour. -/
theorem slower_window_twoCalls :
    ∃ s s', ((openAt Span.zero).addAll
        (callsOf [Span.ofMillis 2, Span.ofMillis 2000])).close 7 "seven" Span.zero = .ok s ∧
      ((openAt Span.zero).addAll
        (callsOf [Span.ofMicros 5000000000, Span.ofMillis 3])).close 8 "eight" Span.zero = .ok s' ∧
      s.latency.max ≤ s'.latency.max ∧ s.latency.p50 ≤ s'.latency.p50 := by
  obtain ⟨s, hs⟩ := close_of_within (w := (openAt Span.zero).addAll
    (callsOf [Span.ofMillis 2, Span.ofMillis 2000]))
    (by decide +kernel) (by unfold Within; decide +kernel) 7 "seven" Span.zero
  obtain ⟨s', hs'⟩ := close_of_within (w := (openAt Span.zero).addAll
    (callsOf [Span.ofMicros 5000000000, Span.ofMillis 3]))
    (by decide +kernel) (by unfold Within; decide +kernel) 8 "eight" Span.zero
  -- All latencies find room.
  have htaken : (openAt Span.zero).taken (callsOf [Span.ofMillis 2, Span.ofMillis 2000]) =
      [Span.ofMillis 2, Span.ofMillis 2000] := taken_eq_map (by decide +kernel)
  have htaken' : (openAt Span.zero).taken (callsOf [Span.ofMicros 5000000000, Span.ofMillis 3]) =
      [Span.ofMicros 5000000000, Span.ofMillis 3] := taken_eq_map (by decide +kernel)
  have hperm : [Span.ofMillis 3, Span.ofMicros 5000000000].Perm
      ((openAt Span.zero).taken (callsOf [Span.ofMicros 5000000000, Span.ofMillis 3])) := by
    rw [htaken']
    exact List.Perm.swap _ _ _
  obtain ⟨hmax, hpercentiles⟩ := slower_window (by simp [callsOf]) hs hs' hperm (by
    rw [htaken]
    exact .cons (by decide +kernel) (.cons (by decide +kernel) .nil))
  obtain ⟨-, hordered⟩ := hpercentiles (1 / 2) _ _ (.head _) (.head _)
  refine ⟨s, s', hs, hs', hmax, hordered ?_⟩
  rw [htaken]
  exact .cons (by unfold Histogram.Reversed; decide +kernel)
    (.cons (by unfold Histogram.Reversed; decide +kernel) .nil)

/-- A latency that needs more than 32 bits gives lower percentiles than a shorter one that is above
    an hour as well. -/
theorem slower_window_fails :
    ∃ s s', ((openAt Span.zero).addAll (callsOf [Span.ofMicros 4000000000])).close
        7 "seven" Span.zero = .ok s ∧
      ((openAt Span.zero).addAll (callsOf [Span.ofMicros 5000000000])).close
        8 "eight" Span.zero = .ok s' ∧
      List.Forall₂ (· ≤ ·) ((openAt Span.zero).taken (callsOf [Span.ofMicros 4000000000]))
        ((openAt Span.zero).taken (callsOf [Span.ofMicros 5000000000])) ∧
      s'.latency.p50 < s.latency.p50 ∧ s'.latency.p90 < s.latency.p90 ∧
      s'.latency.p99 < s.latency.p99 := by
  obtain ⟨s, hs⟩ := close_of_within
    (w := (openAt Span.zero).addAll (callsOf [Span.ofMicros 4000000000]))
    (by decide +kernel) (by unfold Within; decide +kernel) 7 "seven" Span.zero
  obtain ⟨s', hs'⟩ := close_of_within
    (w := (openAt Span.zero).addAll (callsOf [Span.ofMicros 5000000000]))
    (by decide +kernel) (by unfold Within; decide +kernel) 8 "eight" Span.zero
  have htaken : (openAt Span.zero).taken (callsOf [Span.ofMicros 4000000000]) =
      [Span.ofMicros 4000000000] := taken_eq_map (by decide +kernel)
  have htaken' : (openAt Span.zero).taken (callsOf [Span.ofMicros 5000000000]) =
      [Span.ofMicros 5000000000] := taken_eq_map (by decide +kernel)
  refine ⟨s, s', hs, hs', ?_, ?_⟩
  · rw [htaken, htaken']
    exact .cons (by decide +kernel) .nil
  -- The latency of five thousand seconds is kept as one hour, and the other one as it is.
  · obtain ⟨mean, -, rfl⟩ := close_ok hs
    obtain ⟨mean', -, rfl⟩ := close_ok hs'
    show percentile _ 50 < percentile _ 50 ∧ percentile _ 90 < percentile _ 90 ∧
      percentile _ 99 < percentile _ 99
    decide +kernel

end Window

end ClosedLoop
