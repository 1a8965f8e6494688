import ClosedLoop.Proofs.Service.Progress
import ClosedLoop.Proofs.Service.Schedules

namespace ClosedLoop

/-!
# No call is lost

At every moment each of the calls is still to arrive, or in service, or has returned, exactly once.

* `Arrivals.returns` — the returns so far;
* `Arrivals.Changes`, `Arrivals.Next.changes` — **all that one step does** to the calls that are to
  arrive, to those in service and to the returns;
* `Arrivals.known`, `Arrivals.Leads.known_perm` — **every call is in one place** all the time.
-/

namespace Arrivals

/-- The returns so far, latest first: when, which call, and with what. -/
def returns (s : Arrivals) : List (Nat × Nat × Reply) :=
  s.log.filterMap fun e => e.2.returned?.map fun r => (e.1, r)

/-- A return is known by its line in the log. -/
theorem mem_returns {s : Arrivals} {t id : Nat} {reply : Reply} :
    (t, id, reply) ∈ s.returns ↔ (t, .returns id reply) ∈ s.log := by
  simp only [returns, List.mem_filterMap, Option.map_eq_some_iff, Prod.mk.injEq, Prod.exists]
  constructor
  · rintro ⟨_, p, hmem, call, r, hp, rfl, rfl, rfl⟩
    rwa [Passage.returned?_eq_some_iff.mp hp] at hmem
  · intro hmem
    exact ⟨t, _, hmem, id, reply, rfl, rfl, rfl, rfl⟩

/-- The returns of a move come before those that are known. -/
theorem returns_moved (s : Arrivals) (move : Traffic × List Passage) :
    (s.moved move).returns =
      ((move.2.filterMap Passage.returned?).map fun r => (s.now, r)).reverse ++ s.returns := by
  simp only [returns, moved, List.filterMap_append, List.filterMap_reverse, List.filterMap_map,
    List.map_filterMap]
  rfl

/-- What one step does. -/
inductive Changes (s s' : Arrivals) : Prop
  /-- A call goes on, and calls that wait may be admitted. -/
  | goes {c d : Call} {others admitted : List Call} (hnow : s'.now = s.now)
    (hpending : s'.pending = s.pending) (hcalls : s.traffic.calls.Perm (c :: others))
    (hadmitted : List.Forall₂ (Call.Admitted s.now) others admitted) (hgoes : c.Goes s.now d)
    (hcalls' : s'.traffic.calls.Perm (d :: admitted)) (hreturns : s'.returns = s.returns)
  /-- A call returns, and calls that wait may be admitted. -/
  | ends {c : Call} {reply : Reply} {others admitted : List Call} (hnow : s'.now = s.now)
    (hpending : s'.pending = s.pending) (hcalls : s.traffic.calls.Perm (c :: others))
    (hadmitted : List.Forall₂ (Call.Admitted s.now) others admitted) (hends : c.Ends s.now reply)
    (hcalls' : s'.traffic.calls.Perm admitted)
    (hreturns : s'.returns = (s.now, c.id, reply) :: s.returns)
  /-- A call arrives and takes up its first position. -/
  | arrives {a : Arrival} {d : Call} (hnow : s'.now = s.now) (hdue : a.instant ≤ s.now)
    (hpending : s.pending.Perm (a :: s'.pending))
    (hd : Call.Placed s.now a.id a.itinerary.reply a.itinerary.stages d)
    (hcalls' : s'.traffic.calls.Perm (d :: s.traffic.calls)) (hreturns : s'.returns = s.returns)
  /-- A call without stages arrives and returns at once. -/
  | turns {a : Arrival} {reply : Reply} (hnow : s'.now = s.now) (hdue : a.instant ≤ s.now)
    (hpending : s.pending.Perm (a :: s'.pending)) (hstages : a.itinerary.stages = [])
    (hreply : a.itinerary.reply = some reply) (hcalls' : s'.traffic.calls = s.traffic.calls)
    (hreturns : s'.returns = (s.now, a.id, reply) :: s.returns)
  /-- Time passes. -/
  | waits {t : Nat} (hlater : s.now < t) (hnext : s.Upcoming t) (hs' : s' = { s with now := t })

variable {s s' : Arrivals}

/-- **All that one step does.** -/
theorem Next.changes (h : s.Next s') (hnodup : s.traffic.ids.Nodup) : s.Changes s' := by
  cases h with
  | @move c hc hdue =>
    -- The call goes on to its next stage, or it has passed the last and ends.
    obtain ⟨others, admitted, hcalls, hadmitted, ⟨d, hgoes, hcalls', hpassages⟩ |
      ⟨r, hends, hcalls', hpassages⟩⟩ := Traffic.expire_cases hnodup hc hdue
    · refine .goes rfl rfl hcalls hadmitted hgoes hcalls' ?_
      rw [returns_moved, hpassages]
      rfl
    · refine .ends rfl rfl hcalls hadmitted hends hcalls' ?_
      rw [returns_moved, hpassages]
      rfl
  | @arrive before behind a hpending hdue =>
    have hperm : s.pending.Perm (a :: (before ++ behind)) := by
      rw [hpending]
      exact List.perm_middle
    -- The same for a new call, which ends at once if it has no stage and is answered.
    rcases Traffic.place_cases s.traffic s.now a.id a.itinerary.reply a.itinerary.stages with
      ⟨d, hd, hcalls', hpassages⟩ | ⟨r, hstages, hreply, hcalls', hpassages⟩
    · refine .arrives rfl hdue hperm hd ?_ ?_
      · exact (List.Perm.of_eq hcalls').trans (List.perm_append_singleton _ _)
      · rw [returns_moved, Traffic.submit, hpassages]
        rfl
    · refine .turns rfl hdue hperm hstages hreply hcalls' ?_
      rw [returns_moved, Traffic.submit, hpassages]
      rfl
  | wait hlater hnext => exact .waits hlater hnext rfl

/-! ### Every call is in one place -/

/-- The calls that are to arrive, those in service, and those that have returned. -/
def known (s : Arrivals) : List Nat :=
  s.pending.map Arrival.id ++ (s.traffic.ids ++ s.returns.map fun e => e.2.1)

/-- What does not depend on being admitted stays the same for all calls. -/
theorem map_eq_of_admitted {α : Type} {f : Call → α} {now : Nat} {others admitted : List Call}
    (hf : ∀ c d : Call, c.Admitted now d → f d = f c)
    (h : List.Forall₂ (Call.Admitted now) others admitted) : admitted.map f = others.map f := by
  induction h with
  | nil => rfl
  | cons hc _ ih => rw [List.map_cons, List.map_cons, hf _ _ hc, ih]

/-- Being let in keeps the ids. -/
theorem map_id_of_admitted {now : Nat} {others admitted : List Call}
    (h : List.Forall₂ (Call.Admitted now) others admitted) :
    admitted.map Call.id = others.map Call.id :=
  map_eq_of_admitted (fun _ _ hc => hc.id_eq) h

/-- Every call after some were let in is one of those before. -/
theorem exists_of_mem_admitted {now : Nat} {others admitted : List Call} {d : Call}
    (h : List.Forall₂ (Call.Admitted now) others admitted) (hd : d ∈ admitted) :
    ∃ c ∈ others, c.Admitted now d := by
  induction h with
  | nil => cases hd
  | @cons c e others _ hc _ ih =>
    rcases List.mem_cons.mp hd with rfl | hrest
    · exact ⟨c, List.mem_cons_self, hc⟩
    · obtain ⟨x, hx, hadmitted⟩ := ih hrest
      exact ⟨x, List.mem_cons_of_mem c hx, hadmitted⟩

/-- A step loses no call and makes none up. -/
theorem Changes.known_perm (h : s.Changes s') : s'.known.Perm s.known := by
  cases h with
  -- Calls move on within the service, from the service to the returns, or from the arrivals.
  | goes _ hpending hcalls hadmitted hgoes hcalls' hreturns =>
    rw [known, known, hpending, hreturns]
    refine List.Perm.append_left _ (List.Perm.append_right _ ?_)
    have hids := hcalls'.map Call.id
    rw [List.map_cons, hgoes.id_eq, map_id_of_admitted hadmitted] at hids
    exact hids.trans (hcalls.map Call.id).symm
  | @ends c _ _ _ _ hpending hcalls hadmitted _ hcalls' hreturns =>
    rw [known, known, hpending, hreturns]
    refine List.Perm.append_left _ ?_
    have hids : s.traffic.ids.Perm (c.id :: s'.traffic.ids) := by
      refine (hcalls.map Call.id).trans (List.Perm.cons _ ?_)
      rw [← map_id_of_admitted hadmitted]
      exact (hcalls'.map Call.id).symm
    exact List.perm_middle.trans (hids.symm.append_right _)
  | @arrives a _ _ _ hpending hd hcalls' hreturns =>
    rw [known, known, hreturns]
    have hids : s'.traffic.ids.Perm (a.id :: s.traffic.ids) := by
      have hmap := hcalls'.map Call.id
      rwa [List.map_cons, hd.id_eq] at hmap
    refine ((hids.append_right _).append_left _).trans ?_
    refine List.perm_middle.trans ?_
    exact ((hpending.map Arrival.id).symm.append_right _)
  | @turns a _ _ _ hpending _ _ hcalls' hreturns =>
    rw [known, known, hreturns, Traffic.ids, hcalls']
    refine (List.Perm.append_left _ List.perm_middle).trans (List.perm_middle.trans ?_)
    exact (hpending.map Arrival.id).symm.append_right _
  | waits _ _ hs' =>
    rw [hs']
    exact List.Perm.refl _

/-- What is known once is in service once. -/
theorem nodup_ids_of_known (h : s.known.Nodup) : s.traffic.ids.Nodup :=
  (List.nodup_append.mp (List.nodup_append.mp h).2.1).1

/-- At the start the arrivals are all that is known. -/
theorem known_start (capacity : Pool → Nat) (arrivals : List Arrival) :
    (start capacity arrivals).known.Perm (arrivals.map Arrival.id) := by
  rw [known]
  exact List.append_nil _ ▸ (pending_start capacity arrivals).map Arrival.id

variable {first : Arrivals} {n : Nat}

/-- **Every call is in one place all the time.** -/
theorem Leads.known_perm (h : Leads first n s) (hnodup : first.known.Nodup) :
    s.known.Perm first.known := by
  induction h with
  | here => exact List.Perm.refl _
  | next _ hnext ih =>
    exact (hnext.changes (nodup_ids_of_known (ih.nodup_iff.mpr hnodup))).known_perm.trans ih

/-- What every step of a schedule preserves holds throughout. -/
theorem Leads.invariant {P : Arrivals → Prop} (h : Leads first n s) (hnodup : first.known.Nodup)
    (hfirst : P first)
    (hstep : ∀ m s s', Leads first m s → s.Changes s' → P s → P s') : P s := by
  induction h with
  | here => exact hfirst
  | next h hnext ih =>
    have hids := nodup_ids_of_known ((h.known_perm hnodup).nodup_iff.mpr hnodup)
    exact hstep _ _ _ h (hnext.changes hids) ih

end Arrivals

end ClosedLoop
