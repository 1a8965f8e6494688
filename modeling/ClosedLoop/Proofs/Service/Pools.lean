import ClosedLoop.Service.Traffic
import Mathlib.Data.List.Nodup

namespace ClosedLoop

/-!
# The history of a pool

What has happened at a pool can be read off the passages that the moves of the calls have shown: who
asked for a place and in which order, who still waits, and who was inside from when to when.

* `Stay` — one stay of a call in a stage, `Stay.Before` two stays without overlap;
* `History`, `Pool.history` — the history of a pool, read off a log of passages;
* `History.Fits` — a history agrees with those who wait and those who are inside, the places were
  given in the order of asking, and there were never too many inside;
* `History.Fits.wait`, `.enter`, `.grant`, `.leave` — what happens at a pool preserves that.
-/

/-- A stay of a call in a stage: when it entered and, unless it is still inside, when it left. -/
structure Stay where
  call : Nat
  entered : Nat
  left : Option Nat

namespace Stay

/-- The stay after its call has left. -/
def endedBy (call t : Nat) (u : Stay) : Stay :=
  if u.call = call ∧ u.left = none then { u with left := some t } else u

/-- The first stay is over before the second one begins. -/
def Before (u v : Stay) : Prop := ∃ t, u.left = some t ∧ t ≤ v.entered

variable {call t : Nat} {u : Stay}

@[simp] theorem call_endedBy : (u.endedBy call t).call = u.call := by
  unfold endedBy
  split <;> rfl

@[simp] theorem entered_endedBy : (u.endedBy call t).entered = u.entered := by
  unfold endedBy
  split <;> rfl

/-- A stay is still open if it was open and is not that of the call that leaves. -/
theorem left_endedBy_eq_none :
    (u.endedBy call t).left = none ↔ u.left = none ∧ u.call ≠ call := by
  by_cases h : u.call = call ∧ u.left = none
  · simp [endedBy, h]
  · simp only [endedBy, if_neg h]
    exact ⟨fun hn => ⟨hn, fun hc => h ⟨hc, hn⟩⟩, And.left⟩

/-- A stay that is over stays as it is. -/
theorem endedBy_of_left {l : Nat} (h : u.left = some l) : u.endedBy call t = u := by
  rw [endedBy, if_neg]
  rintro ⟨-, hnone⟩
  rw [hnone] at h
  cases h

/-- A stay that is over was over before, or ends now. -/
theorem left_of_endedBy {l : Nat} (h : (u.endedBy call t).left = some l) :
    u.left = some l ∨ l = t := by
  by_cases hends : u.call = call ∧ u.left = none
  · rw [endedBy, if_pos hends] at h
    exact .inr (Option.some.inj h).symm
  · rw [endedBy, if_neg hends] at h
    exact .inl h

end Stay

/-- What has happened at a pool. -/
structure History where
  /-- The calls that asked for a place, in the order of asking. -/
  asked : List Nat
  /-- The calls that still wait, the longest waiting first. -/
  waiting : List Nat
  /-- The stays inside, in the order of entering. -/
  stays : List Stay

namespace History

/-- Nothing has happened. -/
def empty : History := ⟨[], [], []⟩

/-- A call enters. One that has not waited asks for its place at this moment. -/
def enter (h : History) (t call : Nat) : History where
  asked := if call ∈ h.waiting then h.asked else h.asked ++ [call]
  waiting := h.waiting.erase call
  stays := h.stays ++ [⟨call, t, none⟩]

/-- The history of a pool after a passage. -/
def after (pool : Pool) (h : History) : Nat × Passage → History
  | (_, .waits call p) =>
    if p = pool then { h with asked := h.asked ++ [call], waiting := h.waiting ++ [call] } else h
  | (t, .enters call p) => if p = some pool then h.enter t call else h
  | (t, .leaves call p) =>
    if p = some pool then { h with stays := h.stays.map (Stay.endedBy call t) } else h
  | (_, .returns _ _) => h

end History

/-- The history of a pool, read off a log of passages in the order of the clock. -/
def Pool.history (pool : Pool) (log : List (Nat × Passage)) : History :=
  log.foldl (History.after pool) History.empty

/-- The history of more passages. -/
theorem Pool.history_append (pool : Pool) (log more : List (Nat × Passage)) :
    pool.history (log ++ more) = more.foldl (History.after pool) (pool.history log) :=
  List.foldl_append

namespace History

/-- A history agrees with the calls that wait for a pool and those that are inside. -/
structure Fits (h : History) (queue holders : List Nat) (capacity now : Nat) : Prop where
  waiting : h.waiting = queue
  /-- **First come, first served**: the places went to those who asked first, in their order. -/
  order : h.asked = h.stays.map Stay.call ++ queue
  /-- Those inside are those who have entered and not left. -/
  inside : ∀ call, (∃ u ∈ h.stays, u.call = call ∧ u.left = none) ↔ call ∈ holders
  /-- There are at most as many inside as there are places. -/
  within : holders.length ≤ capacity
  past : ∀ u ∈ h.stays, u.entered ≤ now ∧ ∀ t, u.left = some t → u.entered ≤ t ∧ t ≤ now
  /-- In a pool with one place the stays do not overlap. -/
  apart : capacity ≤ 1 → h.stays.Pairwise Stay.Before

/-- The history of an unused pool. -/
theorem fits_empty (capacity now : Nat) : empty.Fits [] [] capacity now where
  waiting := rfl
  order := rfl
  inside call := by simp [empty]
  within := Nat.zero_le capacity
  past u hu := absurd hu List.not_mem_nil
  apart _ := List.Pairwise.nil

namespace Fits

variable {h : History} {queue holders : List Nat} {capacity now : Nat}

/-- Time passes. -/
theorem later (hfits : h.Fits queue holders capacity now) {t : Nat} (ht : now ≤ t) :
    h.Fits queue holders capacity t where
  waiting := hfits.waiting
  order := hfits.order
  inside := hfits.inside
  within := hfits.within
  past u hu := by
    obtain ⟨hentered, hleft⟩ := hfits.past u hu
    exact ⟨Nat.le_trans hentered ht, fun l hl =>
      ⟨(hleft l hl).1, Nat.le_trans (hleft l hl).2 ht⟩⟩
  apart := hfits.apart

/-- The calls inside may be listed in any order. -/
theorem perm (hfits : h.Fits queue holders capacity now) {others : List Nat}
    (hperm : others.Perm holders) : h.Fits queue others capacity now where
  waiting := hfits.waiting
  order := hfits.order
  inside call := by rw [hfits.inside, hperm.mem_iff]
  within := by
    rw [hperm.length_eq]
    exact hfits.within
  past := hfits.past
  apart := hfits.apart

/-- A call begins to wait. -/
theorem wait (hfits : h.Fits queue holders capacity now) (pool : Pool) (call : Nat) :
    (h.after pool (now, .waits call pool)).Fits (queue ++ [call]) holders capacity now := by
  rw [after, if_pos rfl]
  exact {
    waiting := by rw [hfits.waiting]
    order := by rw [hfits.order, List.append_assoc]
    inside := hfits.inside
    within := hfits.within
    past := hfits.past
    apart := hfits.apart }

/-- The stays after a call has entered, if there was room. -/
private theorem stays_enter (hfits : h.Fits queue holders capacity now)
    (hroom : holders.length < capacity) (call : Nat) :
    (∀ other, (∃ u ∈ h.stays ++ [Stay.mk call now none], u.call = other ∧ u.left = none) ↔
        other ∈ holders ++ [call]) ∧
      (holders ++ [call]).length ≤ capacity ∧
      (∀ u ∈ h.stays ++ [Stay.mk call now none],
        u.entered ≤ now ∧ ∀ t, u.left = some t → u.entered ≤ t ∧ t ≤ now) ∧
      (capacity ≤ 1 → (h.stays ++ [Stay.mk call now none]).Pairwise Stay.Before) := by
  refine ⟨fun other => ?_, ?_, fun u hu => ?_, fun hone => ?_⟩
  -- Whoever was inside is still, and the new call is.
  · simp only [List.mem_append, List.mem_singleton, or_and_right, exists_or, hfits.inside other]
    refine or_congr_right ?_
    constructor
    · rintro ⟨u, rfl, rfl, -⟩
      rfl
    · rintro rfl
      exact ⟨_, rfl, rfl, rfl⟩
  · rw [List.length_append, List.length_singleton]
    exact hroom
  · rcases List.mem_append.mp hu with hold | hnew
    · exact hfits.past u hold
    · obtain rfl := List.mem_singleton.mp hnew
      exact ⟨Nat.le_refl now, fun t ht => by cases ht⟩
  · -- with one place and room there is nobody inside, so every stay is over
    refine List.pairwise_append.mpr ⟨hfits.apart hone, List.pairwise_singleton _ _, ?_⟩
    intro u hu v hv
    obtain rfl := List.mem_singleton.mp hv
    cases hleft : u.left with
    | some t => exact ⟨t, hleft, ((hfits.past u hu).2 t hleft).2⟩
    | none =>
      have hmem : u.call ∈ holders := (hfits.inside u.call).mp ⟨u, hu, rfl, hleft⟩
      have hpos : 0 < holders.length := List.length_pos_of_mem hmem
      omega

/-- A call enters at once: nobody waits and there is room. -/
theorem enter (hfits : h.Fits [] holders capacity now) (hroom : holders.length < capacity)
    (pool : Pool) (call : Nat) :
    (h.after pool (now, .enters call (some pool))).Fits [] (holders ++ [call]) capacity now := by
  rw [after, if_pos rfl]
  have hwaiting : h.waiting = [] := hfits.waiting
  have horder : h.asked = h.stays.map Stay.call := by
    rw [hfits.order, List.append_nil]
  obtain ⟨hinside, hwithin, hpast, hapart⟩ := hfits.stays_enter hroom call
  exact {
    -- Nobody waits, so the calls have entered in the order in which they asked.
    waiting := by simp [History.enter, hwaiting]
    order := by simp [History.enter, hwaiting, horder]
    inside := hinside
    within := hwithin
    past := hpast
    apart := hapart }

/-- A free place goes to the call that waits longest. -/
theorem grant {call : Nat} {rest : List Nat} (hfits : h.Fits (call :: rest) holders capacity now)
    (hroom : holders.length < capacity) (pool : Pool) :
    (h.after pool (now, .enters call (some pool))).Fits rest (holders ++ [call]) capacity now := by
  rw [after, if_pos rfl]
  have hwaiting : h.waiting = call :: rest := hfits.waiting
  obtain ⟨hinside, hwithin, hpast, hapart⟩ := hfits.stays_enter hroom call
  exact {
    waiting := by simp [History.enter, hwaiting]
    order := by simp [History.enter, hwaiting, hfits.order]
    inside := hinside
    within := hwithin
    past := hpast
    apart := hapart }

/-- A call leaves. -/
theorem leave (hfits : h.Fits queue holders capacity now) (hnodup : holders.Nodup) (pool : Pool)
    (call : Nat) :
    (h.after pool (now, .leaves call (some pool))).Fits queue (holders.erase call) capacity
      now := by
  rw [after, if_pos rfl]
  exact {
    waiting := hfits.waiting
    order := by
      rw [hfits.order, List.map_map]
      exact congrArg (· ++ queue) (List.map_congr_left fun u _ => Stay.call_endedBy.symm)
    inside := fun other => by
      rw [hnodup.mem_erase_iff, ← hfits.inside other]
      constructor
      · rintro ⟨v, hv, hvcall, hvleft⟩
        obtain ⟨u, hu, rfl⟩ := List.mem_map.mp hv
        rw [Stay.call_endedBy] at hvcall
        obtain ⟨huleft, hne⟩ := Stay.left_endedBy_eq_none.mp hvleft
        exact ⟨hvcall ▸ hne, u, hu, hvcall, huleft⟩
      · rintro ⟨hne, u, hu, rfl, huleft⟩
        exact ⟨_, List.mem_map_of_mem hu, Stay.call_endedBy,
          Stay.left_endedBy_eq_none.mpr ⟨huleft, hne⟩⟩
    within := Nat.le_trans List.length_erase_le hfits.within
    past := fun v hv => by
      obtain ⟨u, hu, rfl⟩ := List.mem_map.mp hv
      obtain ⟨huentered, huleft⟩ := hfits.past u hu
      rw [Stay.entered_endedBy]
      refine ⟨huentered, fun t ht => ?_⟩
      rcases Stay.left_of_endedBy ht with hold | rfl
      · exact huleft t hold
      · exact ⟨huentered, Nat.le_refl t⟩
    apart := fun hone => by
      -- a stay before another one is over already, so that leaving does not change it
      refine List.pairwise_map.mpr ((hfits.apart hone).imp ?_)
      rintro u v ⟨t, ht, hle⟩
      exact ⟨t, by rw [Stay.endedBy_of_left ht, ht], by rw [Stay.entered_endedBy]; exact hle⟩ }

end Fits

end History

end ClosedLoop
