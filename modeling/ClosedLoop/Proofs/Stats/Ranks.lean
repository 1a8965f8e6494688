import ClosedLoop.Stats.Histogram
import Mathlib.Data.List.Forall2
import Mathlib.Data.Rat.Floor
import Mathlib.Tactic.Linarith

namespace ClosedLoop

/-!
# Ranks in histograms

A histogram keeps a value for each latency and answers a percentile with the top of the bucket of
the value that has its rank. Values of a rank are compared by counting, so that no order of the
values matters.

* `Ranked` — the value with a rank among others;
* `Ranked.le_of_forall₂` — greater values have a greater one with the same rank;
* `Ranked.exists_map` — a rank among some values is one among any values as many;
* `Histogram.ranked_percentile` — **what a percentile is answered with**;
* `Histogram.bucketTop_mono`, `Histogram.bucketTop_le` — buckets are in order, and narrow;
* `Histogram.min_le_stored`, `Histogram.stored_le` — what is kept of a latency;
* `Histogram.min_stored_le`, `Histogram.stored_mono` — how far that respects the order of latencies,
  `Histogram.Reversed` where it does not.
-/

/-- The `r`-th smallest of some values is `v`: fewer than `r` of them are less, and at least `r` are
    not greater. -/
def Ranked (values : List Nat) (r v : Nat) : Prop :=
  values.countP (· < v) < r ∧ r ≤ values.countP (· ≤ v)

variable {values others : List Nat} {r r' v u : Nat}

/-! ### Values of a rank -/

/-- A value of rank `r` is at most `u` as soon as `r` values are. -/
theorem Ranked.le_iff (h : Ranked values r v) : v ≤ u ↔ r ≤ values.countP (· ≤ u) := by
  refine ⟨fun hle => ?_, fun hcount => Nat.le_of_not_lt fun hlt => ?_⟩
  · refine Nat.le_trans h.2 (List.countP_mono_left fun x _ hx => ?_)
    simp only [decide_eq_true_eq] at hx ⊢
    omega
  · -- Otherwise all of these values would be less than `v`.
    have hless : values.countP (· ≤ u) ≤ values.countP (· < v) :=
      List.countP_mono_left fun x _ hx => by
        simp only [decide_eq_true_eq] at hx ⊢
        omega
    have hfew := h.1
    omega

/-- The value of a rank does not depend on the order. -/
theorem Ranked.perm (h : Ranked values r v) (hperm : values.Perm others) : Ranked others r v := by
  rw [Ranked, ← hperm.countP_eq, ← hperm.countP_eq]
  exact h

/-- A value of some rank is one of the values. -/
theorem Ranked.mem (h : Ranked values r v) : v ∈ values := by
  by_contra hmissing
  have hsame : values.countP (· ≤ v) = values.countP (· < v) :=
    List.countP_congr fun x hx => by
      have hne : x ≠ v := fun heq => hmissing (heq ▸ hx)
      simp only [decide_eq_true_eq]
      omega
  have hfew := h.1
  have hmany := h.2
  omega

/-- A higher rank has a greater value. -/
theorem Ranked.le_of_le (h : Ranked values r v) (h' : Ranked values r' u) (hle : r ≤ r') :
    v ≤ u :=
  h.le_iff.mpr (Nat.le_trans hle h'.2)

/-- What respects the order of values keeps their ranks. -/
theorem Ranked.map (h : Ranked values r v) {f : Nat → Nat} (hf : ∀ x y, x ≤ y → f x ≤ f y) :
    Ranked (values.map f) r (f v) := by
  rw [Ranked, List.countP_map, List.countP_map]
  constructor
  · refine Nat.lt_of_le_of_lt (List.countP_mono_left fun x _ hx => ?_) h.1
    simp only [Function.comp_apply, decide_eq_true_eq] at hx ⊢
    exact Nat.lt_of_not_le fun hle => Nat.not_lt_of_le (hf v x hle) hx
  · refine Nat.le_trans h.2 (List.countP_mono_left fun x _ hx => ?_)
    simp only [Function.comp_apply, decide_eq_true_eq] at hx ⊢
    exact hf x v hx

section Pairs

variable {α β : Type} {f : α → Nat} {g : β → Nat} {as : List α} {bs : List β}

/-- Greater values have a greater one with the same rank. -/
theorem Ranked.le_of_forall₂ (h : Ranked (as.map f) r v) (h' : Ranked (bs.map g) r u)
    (hall : List.Forall₂ (fun a b => f a ≤ g b) as bs) : v ≤ u := by
  refine h.le_iff.mpr (Nat.le_trans h'.2 ?_)
  clear h h'
  induction hall with
  | nil => exact Nat.le_refl _
  | @cons a b _ _ hle _ ih =>
    rw [List.map_cons, List.map_cons, List.countP_cons, List.countP_cons]
    simp only [decide_eq_true_eq]
    split <;> split <;> omega

/-- A bound on all values is one on every rank. -/
theorem Ranked.bounded (h : Ranked (as.map f) r v) (bound : Nat) :
    Ranked (as.map fun a => min (f a) bound) r (min v bound) := by
  have hmap := h.map (f := fun x => min x bound) fun x y hle => by
    show min x bound ≤ min y bound
    omega
  rwa [List.map_map] at hmap

end Pairs

/-- In ascending values a rank is a place. -/
theorem ranked_getElem (hsorted : values.Pairwise (· ≤ ·)) {i : Nat} (hi : i < values.length) :
    Ranked values (i + 1) values[i] := by
  have hpairs := List.pairwise_iff_getElem.mp hsorted
  constructor
  · -- What comes from this place on is not less.
    have hnone : (values.drop i).countP (· < values[i]) = 0 := by
      refine List.countP_eq_zero.mpr fun x hx => ?_
      obtain ⟨j, hj, rfl⟩ := List.mem_iff_getElem.mp hx
      rw [List.getElem_drop, decide_eq_true_eq, Nat.not_lt]
      rcases Nat.eq_zero_or_pos j with rfl | hpos
      · exact Nat.le_refl _
      · exact hpairs i (i + j) hi _ (by omega)
    have hsplit : values.countP (· < values[i]) =
        (values.take i).countP (· < values[i]) + (values.drop i).countP (· < values[i]) := by
      rw [← List.countP_append, List.take_append_drop]
    have hlength := List.countP_le_length (p := (· < values[i])) (l := values.take i)
    rw [List.length_take] at hlength
    omega
  · -- What comes up to this place is not greater.
    have hall : (values.take (i + 1)).countP (· ≤ values[i]) = i + 1 := by
      rw [List.countP_eq_length.mpr, List.length_take]
      · omega
      · intro x hx
        obtain ⟨j, hj, rfl⟩ := List.mem_iff_getElem.mp hx
        rw [List.length_take] at hj
        rw [List.getElem_take, decide_eq_true_eq]
        rcases Nat.lt_or_ge j i with hlt | hge
        · exact hpairs j i _ hi hlt
        · exact Nat.le_of_eq (by congr 1; omega)
    calc i + 1 = (values.take (i + 1)).countP (· ≤ values[i]) := hall.symm
      _ ≤ values.countP (· ≤ values[i]) := (List.take_sublist _ _).countP_le

namespace Histogram

/-! ### The rank of a percentile -/

variable {percent n : Nat}

/-- Ranks count from one. -/
theorem one_le_rank (percent n : Nat) : 1 ≤ rank percent n := Nat.le_max_left _ _

/-- No rank is beyond the last value. -/
theorem rank_le (hpercent : percent ≤ 100) (hn : 1 ≤ n) : rank percent n ≤ n := by
  have hmul : percent * n ≤ 100 * n := Nat.mul_le_mul_right n hpercent
  rw [rank]
  omega

/-- The rank is the share rounded up, and at least one. -/
theorem rank_eq_ceil (percent n : Nat) :
    rank percent n = max 1 ⌈(percent / 100 * n : ℚ)⌉₊ := by
  have hceil : (percent * n + 99) / 100 = ⌈(percent / 100 * n : ℚ)⌉₊ := by
    refine eq_of_forall_ge_iff fun k => ?_
    have hshare : (percent / 100 * n : ℚ) ≤ k ↔ percent * n ≤ 100 * k := by
      rw [div_mul_eq_mul_div, div_le_iff₀ (by norm_num), mul_comm (k : ℚ)]
      exact_mod_cast Iff.rfl
    rw [Nat.ceil_le, hshare]
    omega
  rw [rank, hceil]

/-! ### Percentiles -/

/-- Sorting keeps the values. -/
theorem perm_sorted (h : Histogram) : h.sorted.Perm h.values := List.mergeSort_perm _ _

/-- The sorted values ascend. -/
theorem pairwise_sorted (h : Histogram) : h.sorted.Pairwise (· ≤ ·) := by
  have hpairwise := @List.pairwise_mergeSort Nat (fun a b => decide (a ≤ b))
    (fun a b c => by simpa using Nat.le_trans) (fun a b => by simpa using Nat.le_total a b) h.values
  simpa only [sorted, decide_eq_true_eq] using hpairwise

/-- The value at the place of a rank has it. -/
theorem ranked_sorted (h : Histogram) (hone : 1 ≤ r) (hle : r ≤ h.values.length) :
    Ranked h.values r ((h.sorted[r - 1]?).getD 0) := by
  have hplace : r - 1 < h.sorted.length := by
    rw [h.perm_sorted.length_eq]
    omega
  have hranked := ranked_getElem h.pairwise_sorted hplace
  rw [Nat.sub_add_cancel hone] at hranked
  rw [List.getElem?_eq_getElem hplace, Option.getD_some]
  exact hranked.perm h.perm_sorted

/-- **A percentile is answered with the top of the bucket of the value that has its rank.** -/
theorem ranked_percentile (h : Histogram) (hsome : h.values ≠ []) (hpercent : percent ≤ 100) :
    ∃ v, Ranked h.values (rank percent h.values.length) v ∧ h.percentile percent = bucketTop v := by
  have hle := rank_le hpercent (List.length_pos_iff.mpr hsome)
  exact ⟨_, h.ranked_sorted (one_le_rank percent _) hle, rfl⟩

/-! ### Buckets -/

/-- The top of a bucket, with its width. -/
theorem bucketTop_add_one (h : 2048 ≤ v) :
    bucketTop v + 1 = (v / 2 ^ ignoredBits v + 1) * 2 ^ ignoredBits v := by
  have hpos : 0 < (v / 2 ^ ignoredBits v + 1) * 2 ^ ignoredBits v :=
    Nat.mul_pos (Nat.succ_pos _) (Nat.two_pow_pos _)
  rw [bucketTop, if_neg (by omega), Nat.shiftLeft_eq, Nat.shiftRight_eq_div_pow]
  omega

/-- The leading bits of a value are the ten that follow the first one in its bucket. -/
theorem log2_eq (h : 2048 ≤ v) : v.log2 = ignoredBits v + 10 := by
  have hlog : 11 ≤ v.log2 := (Nat.le_log2 (by omega)).mpr (by omega)
  rw [ignoredBits]
  omega

/-- **A bucket is as wide as one part in 1024 of its values at most.** -/
theorem bucketTop_le (v : Nat) : bucketTop v ≤ v + v / 1024 := by
  by_cases hsmall : v < 2048
  · rw [bucketTop, if_pos hsmall]
    exact Nat.le_add_right _ _
  · have hlarge : 2048 ≤ v := Nat.le_of_not_lt hsmall
    have htop := bucketTop_add_one hlarge
    have hfloor := Nat.div_mul_le_self v (2 ^ ignoredBits v)
    have hwidth : 2 ^ ignoredBits v * 1024 ≤ v := by
      have hself := Nat.log2_self_le (show v ≠ 0 by omega)
      rwa [log2_eq hlarge, Nat.pow_add] at hself
    rw [Nat.add_mul, Nat.one_mul] at htop
    omega

/-- A bucket does not go beyond the values with as many bits. -/
theorem bucketTop_lt (h : 2048 ≤ v) : bucketTop v < 2 ^ (v.log2 + 1) := by
  have hbits : v < 2 ^ 11 * 2 ^ ignoredBits v := by
    have hself : v < 2 ^ (v.log2 + 1) := Nat.lt_log2_self
    rwa [log2_eq h, show ignoredBits v + 10 + 1 = 11 + ignoredBits v by omega, Nat.pow_add] at hself
  have hmul : (v / 2 ^ ignoredBits v + 1) * 2 ^ ignoredBits v ≤ 2 ^ 11 * 2 ^ ignoredBits v :=
    Nat.mul_le_mul_right _ (Nat.div_lt_of_lt_mul (by rwa [Nat.mul_comm] at hbits))
  have htop := bucketTop_add_one h
  rw [log2_eq h, show ignoredBits v + 10 + 1 = 11 + ignoredBits v by omega, Nat.pow_add]
  omega

/-- **Greater values have greater tops.** -/
theorem bucketTop_mono (h : v ≤ u) : bucketTop v ≤ bucketTop u := by
  have hu := le_bucketTop u
  by_cases hsmall : v < 2048
  · rw [bucketTop, if_pos hsmall]
    omega
  · have hlarge : 2048 ≤ v := Nat.le_of_not_lt hsmall
    have hlog : v.log2 ≤ u.log2 := (Nat.le_log2 (by omega)).mpr
      (Nat.le_trans (Nat.log2_self_le (by omega)) h)
    rcases Nat.lt_or_eq_of_le hlog with hless | hsame
    · -- The other value has more bits than any in the bucket.
      have hbits : 2 ^ (v.log2 + 1) ≤ u :=
        Nat.le_trans (Nat.pow_le_pow_right (by omega) hless) (Nat.log2_self_le (by omega))
      have htop := bucketTop_lt hlarge
      omega
    -- In the same power of two both have buckets of one width.
    · have hwidth : ignoredBits v = ignoredBits u := by rw [ignoredBits, ignoredBits, hsame]
      have hmul : (v / 2 ^ ignoredBits u + 1) * 2 ^ ignoredBits u ≤
          (u / 2 ^ ignoredBits u + 1) * 2 ^ ignoredBits u :=
        Nat.mul_le_mul_right _ (Nat.succ_le_succ (Nat.div_le_div_right h))
      have htop := bucketTop_add_one hlarge
      have htop' := bucketTop_add_one (Nat.le_trans hlarge h)
      rw [hwidth] at htop
      omega

/-! ### What is kept of a latency -/

/-- An hour in microseconds, which is kept for every latency of more than 32 bits. -/
def hour : Nat := 3600000000

/-- Latencies that fit are stored as they are. -/
theorem stored_of_lt (h : v < UInt32.size) : stored v = v := if_pos h

/-- What is stored fits into 32 bits. -/
theorem stored_lt (v : Nat) : stored v < UInt32.size := by
  unfold stored
  split
  · assumption
  · decide

/-- Storing does not make a latency longer. -/
theorem stored_le (v : Nat) : stored v ≤ v := by
  have hsize : UInt32.size = 4294967296 := rfl
  unfold stored
  split <;> omega

/-- Up to an hour a latency is stored as it is, and no longer one is stored as less. -/
theorem min_le_stored (v : Nat) : min v hour ≤ stored v := by
  unfold stored hour
  split <;> omega

/-- Up to an hour what is kept respects the order of latencies. -/
theorem min_stored_le (h : v ≤ u) : min (stored v) hour ≤ stored u := by
  have hsize : UInt32.size = 4294967296 := rfl
  unfold stored hour
  split <;> split <;> omega

/-- Two latencies whose order is lost: one above an hour that is kept as it is, and one that is
    not. -/
def Reversed (v u : Nat) : Prop := hour < v ∧ v < UInt32.size ∧ UInt32.size ≤ u

/-- All others keep their order. -/
theorem stored_mono (h : v ≤ u) (hkept : ¬Reversed v u) : stored v ≤ stored u := by
  have hsize : UInt32.size = 4294967296 := rfl
  unfold Reversed hour at hkept
  unfold stored
  split <;> split <;> omega

end Histogram

/-- A rank that some values have is one among any values as many. -/
theorem Ranked.exists_map {α : Type} {as : List α} {f : α → Nat}
    (h : Ranked (as.map f) r v) (g : α → Nat) : ∃ u, Ranked (as.map g) r u := by
  have hfew := h.1
  have hmany := h.2
  have hcount := List.countP_le_length (p := fun x => decide (x ≤ v)) (l := as.map f)
  rw [List.length_map] at hcount
  refine ⟨_, Histogram.ranked_sorted ⟨as.map g⟩ (by omega) ?_⟩
  rw [List.length_map]
  omega

end ClosedLoop
