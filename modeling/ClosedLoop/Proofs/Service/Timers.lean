import ClosedLoop.Service.Traffic
import Mathlib.Data.List.Basic

namespace ClosedLoop

/-!
# The earliest timer

* `Call.isDue_iff` — a call is due when its timer has fired;
* `Traffic.le_earlier?_iff`, `Traffic.le_foldl_earlier?_iff` — what is not later than the earliest
  of some timers is not later than any of them;
* `Traffic.nextWake?_eq_some_iff`, `Traffic.earlier?_eq_some_iff` — the earliest timer is one of
  them and not later than any.
-/

/-- A call is due if its timer has fired. -/
theorem Call.isDue_iff (c : Call) {now : Nat} :
    c.isDue now ↔ ∃ wake, c.wake? = some wake ∧ wake ≤ now := by
  unfold isDue
  cases c.wake? <;> simp

namespace Traffic

/-- An instant is not later than the earlier of two timers if it is not later than either. -/
theorem le_earlier?_iff {t : Nat} {a b : Option Nat} :
    (∀ wake, earlier? a b = some wake → t ≤ wake) ↔
      (∀ wake, a = some wake → t ≤ wake) ∧ ∀ wake, b = some wake → t ≤ wake := by
  cases a with
  | none => cases b <;> simp [earlier?]
  | some x =>
    cases b with
    | none => simp [earlier?]
    | some y => simp only [earlier?, Option.some.injEq, forall_eq', Nat.le_min]

/-- What comes before all instants of a list comes before the earliest. -/
theorem le_foldl_earlier?_iff {α : Type} {t : Nat} (f : α → Option Nat) (l : List α)
    (best : Option Nat) :
    (∀ wake, l.foldl (fun best x => earlier? best (f x)) best = some wake → t ≤ wake) ↔
      (∀ wake, best = some wake → t ≤ wake) ∧
        ∀ x ∈ l, ∀ wake, f x = some wake → t ≤ wake := by
  induction l generalizing best with
  | nil => simp
  | cons x rest ih => rw [List.foldl_cons, ih, le_earlier?_iff, List.forall_mem_cons, and_assoc]

/-- The earlier of two timers is one of them. -/
theorem eq_of_earlier?_eq_some {t : Nat} {a b : Option Nat} (h : earlier? a b = some t) :
    a = some t ∨ b = some t := by
  cases a with
  | none => exact .inr h
  | some x =>
    cases b with
    | none => exact .inl h
    | some y =>
      have hmin : min x y = t := Option.some.inj h
      rcases Nat.le_total x y with hle | hle
      · exact .inl (by rw [← hmin, Nat.min_eq_left hle])
      · exact .inr (by rw [← hmin, Nat.min_eq_right hle])

/-- The earliest of a list is one of them. -/
theorem eq_of_foldl_earlier?_eq_some {α : Type} {t : Nat} (f : α → Option Nat) (l : List α)
    (best : Option Nat) (h : l.foldl (fun best x => earlier? best (f x)) best = some t) :
    best = some t ∨ ∃ x ∈ l, f x = some t := by
  induction l generalizing best with
  | nil => exact .inl h
  | cons x rest ih =>
    rcases ih _ h with hfirst | ⟨y, hy, hlater⟩
    · refine (eq_of_earlier?_eq_some hfirst).imp_right fun hx => ⟨x, List.mem_cons_self, hx⟩
    · exact .inr ⟨y, List.mem_cons_of_mem x hy, hlater⟩

/-- A timer is known by the instants that are not later. -/
private theorem eq_some_of_forall_le_iff {timer : Option Nat} {t : Nat}
    (h : ∀ n, (∀ wake, timer = some wake → n ≤ wake) ↔ n ≤ t) : timer = some t := by
  cases timer with
  | none =>
    have hlater : t + 1 ≤ t := (h (t + 1)).mp fun wake hwake => by cases hwake
    omega
  | some u =>
    have hle : t ≤ u := (h t).mpr (Nat.le_refl t) u rfl
    have hge : u ≤ t := (h u).mp fun wake hwake => by cases hwake; exact Nat.le_refl u
    rw [Nat.le_antisymm hge hle]

/-- An instant is not later than the next timer of a call if it is not later than any. -/
theorem le_nextWake?_iff {traffic : Traffic} {t : Nat} :
    (∀ wake, traffic.nextWake? = some wake → t ≤ wake) ↔
      ∀ c ∈ traffic.calls, ∀ wake, c.wake? = some wake → t ≤ wake := by
  rw [nextWake?, le_foldl_earlier?_iff]
  simp

/-- The next timer is that of some call, and not later than that of any. -/
theorem nextWake?_eq_some_iff {traffic : Traffic} {t : Nat} :
    traffic.nextWake? = some t ↔ (∃ c ∈ traffic.calls, c.wake? = some t) ∧
      ∀ c ∈ traffic.calls, ∀ wake, c.wake? = some wake → t ≤ wake := by
  constructor
  · intro h
    refine ⟨?_, le_nextWake?_iff.mp fun wake hwake =>
      Nat.le_of_eq (Option.some.inj (h.symm.trans hwake))⟩
    rcases eq_of_foldl_earlier?_eq_some _ _ _ h with hnone | hcall
    · cases hnone
    · exact hcall
  · rintro ⟨⟨c, hc, hwake⟩, hlater⟩
    refine eq_some_of_forall_le_iff fun n => le_nextWake?_iff.trans ⟨fun h => h c hc t hwake, ?_⟩
    exact fun hn d hd wake h => Nat.le_trans hn (hlater d hd wake h)

/-- The earlier of two timers is one of them, and not later than either. -/
theorem earlier?_eq_some_iff {t : Nat} {a b : Option Nat} :
    earlier? a b = some t ↔ (a = some t ∨ b = some t) ∧
      (∀ wake, a = some wake → t ≤ wake) ∧ ∀ wake, b = some wake → t ≤ wake := by
  constructor
  · intro h
    refine ⟨eq_of_earlier?_eq_some h, le_earlier?_iff.mp fun wake hwake => ?_⟩
    exact Nat.le_of_eq (Option.some.inj (h.symm.trans hwake))
  · rintro ⟨hone, hbefore, hbehind⟩
    refine eq_some_of_forall_le_iff fun n => le_earlier?_iff.trans ⟨?_, fun hn => ?_⟩
    · exact fun h => hone.elim (h.1 t) (h.2 t)
    · exact ⟨fun wake h => Nat.le_trans hn (hbefore wake h),
        fun wake h => Nat.le_trans hn (hbehind wake h)⟩

end Traffic

end ClosedLoop
