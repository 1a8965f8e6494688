import ClosedLoop.Stats.Record
import Mathlib.Algebra.BigOperators.Group.List.Basic

namespace ClosedLoop

/-!
# Adding up tallies

* `Tally.of` — the tally of a list of outcomes;
* `Tally.Sound`, `Tally.sound_of` — what holds in every tally of calls: each is a success or a
  failure, and timeouts are failures.
-/

attribute [ext] Tally

namespace Tally

instance : Zero Tally := ⟨zero⟩

instance : Add Tally :=
  ⟨fun s t => ⟨s.requests + t.requests, s.successes + t.successes, s.failures + t.failures,
    s.timeouts + t.timeouts⟩⟩

@[simp] theorem requests_zero : (0 : Tally).requests = 0 := rfl
@[simp] theorem successes_zero : (0 : Tally).successes = 0 := rfl
@[simp] theorem failures_zero : (0 : Tally).failures = 0 := rfl
@[simp] theorem timeouts_zero : (0 : Tally).timeouts = 0 := rfl

@[simp] theorem requests_add (s t : Tally) : (s + t).requests = s.requests + t.requests := rfl
@[simp] theorem successes_add (s t : Tally) : (s + t).successes = s.successes + t.successes := rfl
@[simp] theorem failures_add (s t : Tally) : (s + t).failures = s.failures + t.failures := rfl
@[simp] theorem timeouts_add (s t : Tally) : (s + t).timeouts = s.timeouts + t.timeouts := rfl

instance : AddCommMonoid Tally where
  add_assoc r s t := by ext <;> simp [Nat.add_assoc]
  zero_add t := by ext <;> simp
  add_zero t := by ext <;> simp
  add_comm s t := by ext <;> simp [Nat.add_comm]
  nsmul := nsmulRec

/-- The tally of calls with these outcomes. -/
def of (outcomes : List Outcome) : Tally := (outcomes.map (count 0)).sum

/-- No outcomes have an empty tally. -/
@[simp] theorem of_nil : of [] = 0 := rfl

/-- The tallies of two lists of outcomes add up. -/
@[simp] theorem of_append (as bs : List Outcome) : of (as ++ bs) = of as + of bs := by
  simp [of]

/-- Counting one more call adds the tally of its outcome. -/
theorem count_eq_add (t : Tally) (o : Outcome) : t.count o = t + of [o] := by
  cases o <;> ext <;> simp [count, of]

/-- Every outcome is one of a request. -/
@[simp] theorem requests_of (outcomes : List Outcome) :
    (of outcomes).requests = outcomes.length := by
  induction outcomes with
  | nil => rfl
  | cons o os ih =>
    have hsplit : of (o :: os) = of [o] + of os := of_append [o] os
    rw [hsplit, requests_add, ih]
    cases o <;> simp [of, count, Nat.add_comm]

/-- The counters count outcomes; failures include timeouts. -/
theorem of_eq_counts (outcomes : List Outcome) : of outcomes =
    ⟨outcomes.length, outcomes.count .success, outcomes.count .failure + outcomes.count .timeout,
      outcomes.count .timeout⟩ := by
  induction outcomes with
  | nil => rfl
  | cons o os ih =>
    have hsplit : of (o :: os) = of [o] + of os := of_append [o] os
    rw [hsplit, ih]
    cases o <;> ext <;> simp [of, count] <;> omega

/-- Every call is a success or a failure, and every timeout is a failure. -/
structure Sound (t : Tally) : Prop where
  split : t.successes + t.failures = t.requests
  timeouts_le : t.timeouts ≤ t.failures

/-- The empty tally is sound. -/
theorem sound_zero : Sound 0 := ⟨rfl, Nat.le_refl 0⟩

/-- One more outcome keeps a tally sound. -/
theorem Sound.count {t : Tally} (h : t.Sound) (o : Outcome) : (t.count o).Sound := by
  obtain ⟨hsplit, hle⟩ := h
  cases o <;> constructor <;> simp only [Tally.count] <;> omega

/-- The sum of sound tallies is sound. -/
theorem Sound.add {s t : Tally} (hs : s.Sound) (ht : t.Sound) : (s + t).Sound := by
  obtain ⟨hsplit, hle⟩ := hs
  obtain ⟨hsplit', hle'⟩ := ht
  constructor <;> simp only [requests_add, successes_add, failures_add, timeouts_add] <;> omega

/-- Every tally of outcomes is sound. -/
theorem sound_of (outcomes : List Outcome) : (of outcomes).Sound := by
  induction outcomes with
  | nil => exact sound_zero
  | cons o rest ih =>
    have hone : (of [o]).Sound := by
      rw [← zero_add (of [o]), ← count_eq_add]
      exact sound_zero.count o
    have hsplit : of (o :: rest) = of [o] + of rest := of_append [o] rest
    rw [hsplit]
    exact hone.add ih

/-- A sound tally without requests is empty. -/
theorem Sound.eq_zero {t : Tally} (h : t.Sound) (hnone : t.requests = 0) : t = 0 := by
  obtain ⟨hsplit, hle⟩ := h
  ext <;> simp <;> omega

end Tally

end ClosedLoop
