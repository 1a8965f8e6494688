import ClosedLoop.Span

/-!
# Latency histograms

A histogram keeps latencies in whole microseconds. Values below 2048 are exact; above, a bucket is
as wide as one part in 1024 of its values at most, and a percentile is answered by the top of its
bucket.

* `Histogram.stored` — the value kept for a latency.
* `Histogram.bucketTop` — the largest value of a bucket.
* `Histogram.percentile` — the top of the bucket of the value with the rank of a percentile.
-/

namespace ClosedLoop

/-- The values kept, in the order in which they came. -/
structure Histogram where
  values : List Nat

namespace Histogram

/-- Nothing recorded. -/
def empty : Histogram := ⟨[]⟩

/-- The value kept for a latency of so many microseconds: what needs more than 32 bits is kept as
one hour. -/
def stored (micros : Nat) : Nat :=
  if micros < UInt32.size then micros else 3600000000

/-- One more latency. -/
def add (h : Histogram) (latency : Span) : Histogram :=
  ⟨stored latency.wholeMicros :: h.values⟩

/-- How many low bits of a value its bucket ignores. -/
def ignoredBits (v : Nat) : Nat := v.log2 + 1 - 11

/-- The largest value in the bucket of a value. -/
def bucketTop (v : Nat) : Nat :=
  if v < 2048 then v
  else (((v >>> ignoredBits v) + 1) <<< ignoredBits v) - 1

/-- The rank of a percentile among `n` values: the smallest count that is at least that share of
them, and at least one. -/
def rank (percent n : Nat) : Nat := max 1 ((percent * n + 99) / 100)

/-- The values in ascending order. -/
def sorted (h : Histogram) : List Nat := h.values.mergeSort

/-- The microseconds that answer a percentile. -/
def percentile (h : Histogram) (percent : Nat) : Nat :=
  bucketTop ((h.sorted[rank percent h.values.length - 1]?).getD 0)

theorem le_bucketTop (v : Nat) : v ≤ bucketTop v := by
  unfold bucketTop
  split
  · exact Nat.le_refl v
  · have pos : 0 < 2 ^ ignoredBits v := Nat.two_pow_pos _
    have below := Nat.lt_div_mul_add (a := v) pos
    rw [Nat.shiftLeft_eq, Nat.shiftRight_eq_div_pow, Nat.add_mul, Nat.one_mul]
    omega

end Histogram

end ClosedLoop
