import ClosedLoop.Clock
import Mathlib.Algebra.Order.Ring.Nat

namespace ClosedLoop

/-!
# Waiting in step with the clock

From a whole millisecond on, waiting takes the same time whenever it begins: the time to wait for,
cut to the longest wait and rounded up to whole milliseconds.

* `Clock.wait_le_wake`, `Clock.lt_wake` — waiting never ends early, and takes time unless it is for
  no time;
* `Clock.pause`, `Clock.wake_eq_add_pause` — how long waiting takes from a whole millisecond on;
* `Clock.pause_lt`, `Clock.pause_le_ceilTick` — a pause is less than a millisecond too long, and
  never longer than the time itself rounded up.
-/

namespace Clock

/-- Later instants are not rounded to earlier ticks. -/
theorem ceilTick_mono {s t : Nat} (h : s ≤ t) : ceilTick s ≤ ceilTick t :=
  Nat.mul_le_mul_right tick (Nat.div_le_div_right (Nat.add_le_add_right h _))

/-- Waiting never ends early, apart from the limit to a single wait. -/
theorem wait_le_wake (now : Nat) (d : Span) : now + min d.nanos longestWait ≤ wake now d := by
  unfold wake
  split
  · rename_i hzero
    have hnanos : d.nanos = 0 := by simpa [Span.isZero] using hzero
    rw [hnanos, Nat.zero_min]
    exact Nat.le_refl now
  · exact le_ceilTick _

/-- Waiting that begins later ends later. -/
theorem wake_mono {s t : Nat} (h : s ≤ t) (d : Span) : wake s d ≤ wake t d := by
  unfold wake
  split
  · exact h
  · exact ceilTick_mono (Nat.add_le_add_right h _)

/-- Waiting takes time, unless it is for no time. -/
theorem lt_wake (now : Nat) {d : Span} (h : 0 < d.nanos) : now < wake now d := by
  have hwait : 0 < min d.nanos longestWait := Nat.lt_min.mpr ⟨h, by decide⟩
  have hle := wait_le_wake now d
  omega

/-- How long waiting takes from a whole millisecond on: the time is rounded up to whole
    milliseconds, after it was cut to the longest wait. -/
def pause (d : Span) : Nat := ceilTick (min d.nanos longestWait)

/-- Rounding ends at a tick. -/
theorem tick_dvd_ceilTick (t : Nat) : tick ∣ ceilTick t := Dvd.intro_left _ rfl

/-- Whole ticks do not matter for rounding. -/
theorem ceilTick_add {t : Nat} (ht : tick ∣ t) (x : Nat) : ceilTick (t + x) = t + ceilTick x := by
  obtain ⟨k, rfl⟩ := ht
  unfold ceilTick tick
  omega

/-- Pauses last whole ticks. -/
theorem tick_dvd_pause (d : Span) : tick ∣ pause d := tick_dvd_ceilTick _

/-- Waiting from a whole millisecond on ends at a whole millisecond. -/
theorem tick_dvd_wake {now : Nat} (h : tick ∣ now) (d : Span) : tick ∣ wake now d := by
  unfold wake
  split
  · exact h
  · exact tick_dvd_ceilTick _

/-- Waiting from a whole millisecond on ends after the pause. -/
theorem wake_eq_add_pause {now : Nat} (h : tick ∣ now) (d : Span) :
    wake now d = now + pause d := by
  unfold wake pause
  split
  · rename_i hzero
    have hnanos : d.nanos = 0 := by simpa [Span.isZero] using hzero
    rw [hnanos, Nat.zero_min]
    rfl
  · exact ceilTick_add h _

/-- A pause is less than a millisecond longer than the wait. -/
theorem pause_lt (d : Span) : pause d < min d.nanos longestWait + tick := ceilTick_lt _

/-- A pause is not longer than the time itself, rounded up to whole milliseconds. -/
theorem pause_le_ceilTick (d : Span) : pause d ≤ ceilTick d.nanos :=
  ceilTick_mono (Nat.min_le_left _ _)

/-- A pause takes time unless there is nothing to wait for. -/
theorem pause_pos_iff (d : Span) : 0 < pause d ↔ 0 < d.nanos := by
  have hle := le_ceilTick (min d.nanos longestWait)
  have hlt := ceilTick_lt (min d.nanos longestWait)
  have hmod := ceilTick_mod_tick (min d.nanos longestWait)
  unfold pause
  constructor
  · intro hpos
    refine Nat.pos_of_ne_zero fun hzero => ?_
    rw [hzero, Nat.zero_min] at hpos
    exact absurd hpos (by decide)
  · intro hpos
    have hwait : 0 < min d.nanos longestWait := Nat.lt_min.mpr ⟨hpos, by decide⟩
    omega

end Clock

end ClosedLoop
