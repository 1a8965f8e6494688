import ClosedLoop.Proofs.Service.Courses
import ClosedLoop.Proofs.Service.Timers

namespace ClosedLoop

/-!
# Schedules of arriving calls

What is due at one instant may happen in any order: a call moves whose timer has fired, or a call
arrives. Time passes to the next timer or arrival, and only when nothing is due.

* `Arrivals.Next`, `Arrivals.Leads` — what may happen next, and what may have happened after so many
  steps;
* `Arrivals.exists_next` — something may happen as long as a call is inside a stage or to arrive;
* `Arrivals.Leads.reachable` — every schedule is a course of the endpoint;
* `Arrivals.leads_runWithin` — the run of a list of arrivals is a schedule, which ends early only
  where nothing may happen up to the limit.
-/

namespace Arrivals

/-- The instant of the next timer or arrival. -/
structure Upcoming (s : Arrivals) (t : Nat) : Prop where
  calls : ∀ c ∈ s.traffic.calls, ∀ wake, c.wake? = some wake → t ≤ wake
  arrivals : ∀ a ∈ s.pending, t ≤ a.instant
  reached : (∃ c ∈ s.traffic.calls, c.wake? = some t) ∨ ∃ a ∈ s.pending, a.instant = t

/-- What may happen next. -/
inductive Next (s : Arrivals) : Arrivals → Prop
  | move {c : Call} (hc : c ∈ s.traffic.calls) (hdue : c.isDue s.now = true) :
    Next s (s.moved (s.traffic.expire s.now c))
  | arrive {before behind : List Arrival} {a : Arrival}
    (hpending : s.pending = before ++ a :: behind) (hdue : a.instant ≤ s.now) :
    Next s ({ s with pending := before ++ behind }.moved
      (s.traffic.submit s.now a.id a.itinerary))
  | wait {t : Nat} (hlater : s.now < t) (hnext : s.Upcoming t) : Next s { s with now := t }

/-- What may have happened after so many steps. -/
inductive Leads (first : Arrivals) : Nat → Arrivals → Prop
  | here : Leads first 0 first
  | next {n : Nat} {s s' : Arrivals} (h : Leads first n s) (hnext : s.Next s') :
    Leads first (n + 1) s'

variable {s s' : Arrivals} {limit t : Nat}

/-- There is one such instant. -/
theorem Upcoming.le {u : Nat} (ht : s.Upcoming t) (hu : s.Upcoming u) : t ≤ u := by
  rcases hu.reached with ⟨c, hc, hwake⟩ | ⟨a, ha, rfl⟩
  · exact ht.calls c hc u hwake
  · exact ht.arrivals a ha

/-! ### There is something to happen -/

/-- There is a next instant, unless nothing moves and nobody comes. -/
theorem exists_upcoming (h : (∃ c ∈ s.traffic.calls, ∃ wake, c.wake? = some wake) ∨
    s.pending ≠ []) : ∃ t, s.Upcoming t := by
  let instants := s.traffic.calls.filterMap Call.wake? ++ s.pending.map Arrival.instant
  have hsome : instants ≠ [] := by
    rcases h with ⟨c, hc, wake, hwake⟩ | hpending
    · refine List.ne_nil_of_mem (a := wake) (List.mem_append_left _ ?_)
      exact List.mem_filterMap.mpr ⟨c, hc, hwake⟩
    · simp [instants, hpending]
  -- It is the smallest of all timers and arrivals.
  obtain ⟨t, ht⟩ := Option.ne_none_iff_exists'.mp (mt List.min?_eq_none_iff.mp hsome)
  obtain ⟨hmem, hle⟩ := List.min?_eq_some_iff.mp ht
  refine ⟨t, fun c hc wake hwake => ?_, fun a ha => ?_, ?_⟩
  · exact hle wake (List.mem_append_left _ (List.mem_filterMap.mpr ⟨c, hc, hwake⟩))
  · exact hle a.instant (List.mem_append_right _ (List.mem_map_of_mem ha))
  · rcases List.mem_append.mp hmem with hcall | harrival
    · exact .inl (List.mem_filterMap.mp hcall)
    · exact .inr (List.mem_map.mp harrival)

/-- **Something may happen** as long as a call is inside a stage or still to arrive. -/
theorem exists_next (h : (∃ c ∈ s.traffic.calls, ∃ wake, c.wake? = some wake) ∨
    s.pending ≠ []) : ∃ s', s.Next s' := by
  obtain ⟨t, hnext⟩ := exists_upcoming h
  by_cases hlater : s.now < t
  · exact ⟨_, .wait hlater hnext⟩
  · have ht : t ≤ s.now := Nat.le_of_not_lt hlater
    rcases hnext.reached with ⟨c, hc, hwake⟩ | ⟨a, ha, rfl⟩
    · exact ⟨_, .move hc (c.isDue_iff.mpr ⟨t, hwake, ht⟩)⟩
    · obtain ⟨before, behind, hpending⟩ := List.append_of_mem ha
      exact ⟨_, .arrive hpending ht⟩

/-- Where nothing is due, time passes. -/
theorem Next.exists_upcoming (h : s.Next s') (hfuture : ∀ t, s.Upcoming t → s.now < t) :
    ∃ t, s.Upcoming t ∧ s' = { s with now := t } := by
  cases h with
  | @move c hc hdue =>
    -- A call that is due would be an instant that is not to come.
    obtain ⟨wake, hwake, hle⟩ := c.isDue_iff.mp hdue
    obtain ⟨t, ht⟩ := Arrivals.exists_upcoming (.inl ⟨c, hc, wake, hwake⟩)
    exact absurd (Nat.le_trans (ht.calls c hc wake hwake) hle) (Nat.not_le_of_lt (hfuture t ht))
  | @arrive before behind a hpending hdue =>
    have ha : a ∈ s.pending := by
      rw [hpending]
      exact List.mem_append_right _ List.mem_cons_self
    obtain ⟨t, ht⟩ := Arrivals.exists_upcoming (.inr (List.ne_nil_of_mem ha))
    exact absurd (Nat.le_trans (ht.arrivals a ha) hdue) (Nat.not_le_of_lt (hfuture t ht))
  | @wait t hlater hnext => exact ⟨t, hnext, rfl⟩

/-- In the beginning all calls are still to arrive. -/
theorem pending_start (capacity : Pool → Nat) (arrivals : List Arrival) :
    (start capacity arrivals).pending.Perm arrivals :=
  List.mergeSort_perm arrivals _

/-! ### Schedules are courses -/

section

variable {capacity : Pool → Nat} {Comes : Itinerary → Prop} {arrived : List Nat}

/-- What happens next is a step of a course. -/
theorem Next.reachable (h : s.Next s') (hs : Course.Reachable capacity Comes (s.course arrived))
    (hpending : Expects Comes s.pending arrived) :
    ∃ arrived', Course.Reachable capacity Comes (s'.course arrived') ∧
      Expects Comes s'.pending arrived' := by
  cases h with
  | move hc hdue =>
    refine ⟨arrived, ?_, hpending⟩
    rw [course_moved]
    exact hs.expire hc hdue
  | @arrive before behind a hsplit hdue =>
    obtain ⟨hcomes, hdistinct, hfresh⟩ := hpending
    have ha : a ∈ s.pending := by
      rw [hsplit]
      exact List.mem_append_right _ List.mem_cons_self
    have hothers : ∀ b ∈ before ++ behind, b ∈ s.pending := by
      intro b hb
      rw [hsplit]
      exact List.mem_append.mpr ((List.mem_append.mp hb).imp_right (List.mem_cons_of_mem a))
    have hperm : (s.pending.map Arrival.id).Perm (a.id :: (before ++ behind).map Arrival.id) := by
      rw [hsplit]
      exact List.perm_middle.map Arrival.id
    -- The ids differ, so the new one is none of those that have arrived.
    obtain ⟨hnew, hrest⟩ := List.nodup_cons.mp (hperm.nodup_iff.mp hdistinct)
    refine ⟨a.id :: arrived, ?_, fun b hb => hcomes b (hothers b hb), hrest, fun b hb hmem => ?_⟩
    · have hsubmit := hs.submit (hfresh a ha) (hcomes a ha)
      rw [← course_moved] at hsubmit
      exact hsubmit
    · rcases List.mem_cons.mp hmem with hsame | hold
      · exact hnew (hsame ▸ List.mem_map_of_mem hb)
      · exact hfresh b (hothers b hb) hold
  | wait hlater hnext => exact ⟨arrived, hs.wait (Nat.le_of_lt hlater), hpending⟩

/-- **Every schedule is a course of the endpoint.** -/
theorem Leads.reachable {arrivals : List Arrival} {n : Nat}
    (hids : (arrivals.map Arrival.id).Nodup) (hcomes : ∀ a ∈ arrivals, Comes a.itinerary)
    (h : Leads (start capacity arrivals) n s) :
    ∃ arrived, Course.Reachable capacity Comes (s.course arrived) ∧
      Expects Comes s.pending arrived := by
  induction h with
  | here =>
    have hperm := pending_start capacity arrivals
    refine ⟨[], Course.Reachable.start, fun a ha => hcomes a (hperm.mem_iff.mp ha), ?_,
      fun a _ => List.not_mem_nil⟩
    exact (hperm.map Arrival.id).nodup_iff.mpr hids
  | next _ hnext ih =>
    obtain ⟨arrived, hreachable, hexpects⟩ := ih
    exact hnext.reachable hreachable hexpects

end

/-! ### The run of a list of arrivals -/

/-- The calls arrive in the order of the clock. -/
def Sorted (s : Arrivals) : Prop := s.pending.Pairwise fun a b => a.instant ≤ b.instant

/-- At the start the arrivals are sorted. -/
theorem sorted_start (capacity : Pool → Nat) (arrivals : List Arrival) :
    (start capacity arrivals).Sorted := by
  have hsorted : (start capacity arrivals).pending.Pairwise
      fun a b => decide (a.instant ≤ b.instant) = true := by
    refine List.pairwise_mergeSort (fun a b c hab hbc => ?_) (fun a b => ?_) arrivals
    · exact decide_eq_true (Nat.le_trans (of_decide_eq_true hab) (of_decide_eq_true hbc))
    · rw [Bool.or_eq_true, decide_eq_true_eq, decide_eq_true_eq]
      exact Nat.le_total a.instant b.instant
  exact hsorted.imp of_decide_eq_true

/-- The first call to arrive is the earliest one. -/
theorem instant_le_of_sorted (hsorted : s.Sorted) {a : Arrival} {rest : List Arrival}
    (hpending : s.pending = a :: rest) : ∀ b ∈ s.pending, a.instant ≤ b.instant := by
  intro b hb
  rw [Sorted, hpending] at hsorted
  rw [hpending] at hb
  rcases List.mem_cons.mp hb with rfl | hrest
  · exact Nat.le_refl _
  · exact (List.pairwise_cons.mp hsorted).1 b hrest

/-- The next arrival is the first one. -/
theorem nextArrival?_eq_some_iff (hsorted : s.Sorted) :
    s.nextArrival? = some t ↔
      (∃ a ∈ s.pending, a.instant = t) ∧ ∀ a ∈ s.pending, t ≤ a.instant := by
  unfold nextArrival?
  cases hpending : s.pending with
  | nil => simp
  | cons a rest =>
    have hfirst := instant_le_of_sorted hsorted hpending
    rw [hpending] at hfirst
    simp only [List.head?_cons, Option.map_some, Option.some.injEq]
    constructor
    · rintro rfl
      exact ⟨⟨a, List.mem_cons_self, rfl⟩, hfirst⟩
    · rintro ⟨⟨b, hb, rfl⟩, hle⟩
      exact Nat.le_antisymm (hfirst b hb) (hle a List.mem_cons_self)

/-- The clock goes to the earlier of the next timer and the next arrival. -/
theorem upcoming_iff (hsorted : s.Sorted) :
    s.Upcoming t ↔ Traffic.earlier? s.traffic.nextWake? s.nextArrival? = some t := by
  -- Arrivals are sorted, so the first one stands for all of them.
  have harrivals {u : Nat} := nextArrival?_eq_some_iff (t := u) hsorted
  rw [Traffic.earlier?_eq_some_iff, Traffic.le_nextWake?_iff]
  constructor
  · intro h
    refine ⟨h.reached.imp (fun hcall => Traffic.nextWake?_eq_some_iff.mpr ⟨hcall, h.calls⟩)
      (fun harrival => harrivals.mpr ⟨harrival, h.arrivals⟩), h.calls, fun u hu => ?_⟩
    obtain ⟨⟨a, ha, rfl⟩, -⟩ := harrivals.mp hu
    exact h.arrivals a ha
  · rintro ⟨hreached, hcalls, hlater⟩
    refine ⟨hcalls, fun a ha => ?_, hreached.imp (fun h => (Traffic.nextWake?_eq_some_iff.mp h).1)
      fun h => (harrivals.mp h).1⟩
    cases hpending : s.pending with
    | nil =>
      rw [hpending] at ha
      cases ha
    | cons first rest =>
      have hfirst := instant_le_of_sorted hsorted hpending
      refine Nat.le_trans (hlater first.instant (harrivals.mpr ⟨⟨first, ?_, rfl⟩, hfirst⟩))
        (hfirst a ha)
      rw [hpending]
      exact List.mem_cons_self

/-- Where nothing is due, whatever comes next is in the future. -/
private theorem lt_of_upcoming (hsorted : s.Sorted) (hdue : s.traffic.due? s.now = none)
    (harrives : ¬∃ a rest, s.pending = a :: rest ∧ a.instant ≤ s.now) (ht : s.Upcoming t) :
    s.now < t := by
  rcases ht.reached with ⟨c, hc, hwake⟩ | ⟨a, ha, rfl⟩
  · have hnot : ¬c.isDue s.now = true := List.find?_eq_none.mp hdue c hc
    exact Nat.lt_of_not_le fun hle => hnot (c.isDue_iff.mpr ⟨t, hwake, hle⟩)
  · obtain ⟨first, rest, hpending⟩ := List.exists_cons_of_ne_nil (List.ne_nil_of_mem ha)
    have hfirst := instant_le_of_sorted hsorted hpending a ha
    exact Nat.lt_of_not_le fun hle => harrives ⟨first, rest, hpending, Nat.le_trans hfirst hle⟩

/-- Where nothing is due, the clock goes on. -/
private theorem step?_of_idle (limit : Nat) (hdue : s.traffic.due? s.now = none)
    (harrives : ¬∃ a rest, s.pending = a :: rest ∧ a.instant ≤ s.now) :
    s.step? limit = (Traffic.earlier? s.traffic.nextWake? s.nextArrival?).bind fun t =>
      if t ≤ limit then some { s with now := max s.now t } else none := by
  unfold step?
  cases hpending : s.pending with
  | nil =>
    simp only [hdue]
    cases Traffic.earlier? s.traffic.nextWake? s.nextArrival? <;> rfl
  | cons a rest =>
    simp only [hdue, if_neg fun hle => harrives ⟨a, rest, hpending, hle⟩]
    cases Traffic.earlier? s.traffic.nextWake? s.nextArrival? <;> rfl

/-- What the next step of a run is: a move, an arrival, or the clock goes on, and only where nothing
    is due. -/
theorem step?_cases (hsorted : s.Sorted) (limit : Nat) :
    (∃ c ∈ s.traffic.calls, c.isDue s.now = true ∧
      s.step? limit = some (s.moved (s.traffic.expire s.now c))) ∨
    (∃ a rest, s.pending = a :: rest ∧ a.instant ≤ s.now ∧ s.step? limit =
      some ({ s with pending := rest }.moved (s.traffic.submit s.now a.id a.itinerary))) ∨
    ((∀ t, s.Upcoming t → s.now < t) ∧ ((∃ t ≤ limit, s.Upcoming t ∧
      s.step? limit = some { s with now := t }) ∨
        (s.step? limit = none ∧ ∀ t, s.Upcoming t → limit < t))) := by
  cases hdue : s.traffic.due? s.now with
  | some c =>
    refine .inl ⟨c, List.mem_of_find?_eq_some hdue, by simpa using List.find?_some hdue, ?_⟩
    simp only [step?, hdue]
  | none =>
    by_cases harrives : ∃ a rest, s.pending = a :: rest ∧ a.instant ≤ s.now
    · obtain ⟨a, rest, hpending, hle⟩ := harrives
      refine .inr (.inl ⟨a, rest, hpending, hle, ?_⟩)
      simp only [step?, hdue, hpending, if_pos hle]
    -- Nothing is due, so everything that comes is to come.
    · have hfuture : ∀ t, s.Upcoming t → s.now < t := fun t =>
        lt_of_upcoming hsorted hdue harrives
      have hadvance := step?_of_idle limit hdue harrives
      refine .inr (.inr ⟨hfuture, ?_⟩)
      cases hnext : Traffic.earlier? s.traffic.nextWake? s.nextArrival? with
      | none =>
        refine .inr ⟨by rw [hadvance, hnext]; rfl, fun t ht => ?_⟩
        rw [upcoming_iff hsorted, hnext] at ht
        cases ht
      | some t =>
        have ht : s.Upcoming t := (upcoming_iff hsorted).mpr hnext
        rw [hadvance, hnext, Option.bind_some, Nat.max_eq_right (Nat.le_of_lt (hfuture t ht))]
        by_cases hlimit : t ≤ limit
        · exact .inl ⟨t, hlimit, ht, if_pos hlimit⟩
        · refine .inr ⟨if_neg hlimit, fun u hu => ?_⟩
          rw [upcoming_iff hsorted, hnext, Option.some.injEq] at hu
          omega

/-- The next step of a run is one of those that may happen, and keeps the order of arrivals. -/
theorem Sorted.next_of_step? (hsorted : s.Sorted) (h : s.step? limit = some s') :
    s.Next s' ∧ s'.Sorted := by
  rcases step?_cases hsorted limit with ⟨c, hc, hdue, hstep⟩ | ⟨a, rest, hpending, hdue, hstep⟩ |
    ⟨hfuture, ⟨t, -, ht, hstep⟩ | ⟨hstep, -⟩⟩
  · obtain rfl := Option.some.inj (hstep.symm.trans h)
    exact ⟨.move hc hdue, hsorted⟩
  · obtain rfl := Option.some.inj (hstep.symm.trans h)
    -- The arrival is the first one, so those behind it stay sorted.
    have hsplit : s.pending = [] ++ a :: rest := hpending
    refine ⟨.arrive hsplit hdue, ?_⟩
    rw [Sorted, hpending] at hsorted
    exact (List.pairwise_cons.mp hsorted).2
  · obtain rfl := Option.some.inj (hstep.symm.trans h)
    exact ⟨.wait (hfuture t ht) ht, hsorted⟩
  · rw [hstep] at h
    cases h

/-- Where the run stops, nothing may happen up to the limit. -/
theorem Sorted.limit_lt_of_step? (hsorted : s.Sorted) (hstop : s.step? limit = none)
    (h : s.Next s') : limit < s'.now := by
  rcases step?_cases hsorted limit with ⟨c, -, -, hstep⟩ | ⟨a, rest, -, -, hstep⟩ |
    ⟨hfuture, ⟨t, -, -, hstep⟩ | ⟨-, hlate⟩⟩
  · exact absurd (hstep.symm.trans hstop) (by simp)
  · exact absurd (hstep.symm.trans hstop) (by simp)
  · exact absurd (hstep.symm.trans hstop) (by simp)
  · obtain ⟨t, ht, rfl⟩ := h.exists_upcoming hfuture
    exact hlate t ht

/-- **The run of a list of arrivals is a schedule**, which ends before its fuel only where nothing
    may happen up to the limit. -/
theorem Sorted.leads_runWithin {first : Arrivals} {n : Nat} (hsorted : s.Sorted)
    (h : Leads first n s) (limit fuel : Nat) :
    ∃ m, Leads first m (runWithin limit fuel s) ∧ (m = n + fuel ∨
      ∀ s', (runWithin limit fuel s).Next s' → limit < s'.now) := by
  induction fuel generalizing s n with
  | zero => exact ⟨n, h, .inl rfl⟩
  | succ fuel ih =>
    rw [runWithin]
    cases hstep : s.step? limit with
    -- The run ends early only where no step is left up to the limit.
    | none => exact ⟨n, h, .inr fun s' => hsorted.limit_lt_of_step? hstep⟩
    | some next =>
      obtain ⟨hnext, hkept⟩ := hsorted.next_of_step? hstep
      obtain ⟨m, hm, hend⟩ := ih hkept (h.next hnext)
      exact ⟨m, hm, hend.imp_left (by omega)⟩

end Arrivals

end ClosedLoop
