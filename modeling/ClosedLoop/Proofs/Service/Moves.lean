import ClosedLoop.Proofs.Service.Pools
import Mathlib.Data.List.Basic

namespace ClosedLoop

/-!
# Moves of calls keep the pools in order

A move of a call is made of a few steps: it leaves a stage, a waiting call takes over the place, the
call enters its next stage or begins to wait. Each of them is one step in the history of one pool
and none in those of the others.

* `Traffic.queue`, `Traffic.holders` — who waits for a pool and who is inside;
* `Traffic.Orderly` — the calls are different, and every pool fits its history;
* `Traffic.Busy` — a pool that calls wait for has no free place;
* `Orderly.leave`, `.grant`, `.renew`, `.place` — the steps;
* `Orderly.submit`, `Orderly.expire` — a new call and the next move of a call keep the traffic
  orderly and busy.
-/

namespace Traffic

/-! ### Who waits and who is inside -/

/-- The ids of the calls with a property, in the order of the traffic. -/
def idsOf (t : Traffic) (P : Call → Bool) : List Nat := (t.calls.filter P).map Call.id

/-- The ids of all calls. -/
def ids (t : Traffic) : List Nat := t.calls.map Call.id

/-- The calls that wait for a place in a pool, the longest waiting first. -/
def queue (t : Traffic) (p : Pool) : List Nat := t.idsOf (·.waitsFor p)

/-- The calls that are inside a stage with a place in a pool. -/
def holders (t : Traffic) (p : Pool) : List Nat := t.idsOf (·.occupies p)

/-- The places in use are those of the calls that hold them. -/
theorem inUse_eq (t : Traffic) (p : Pool) : t.inUse p = (t.holders p).length := by
  rw [inUse, holders, idsOf, List.length_map, List.countP_eq_length_filter]

variable {t : Traffic} {c d : Call} {P : Call → Bool} {p : Pool}

/-- The ids of the calls with a property. -/
theorem mem_idsOf {id : Nat} : id ∈ t.idsOf P ↔ ∃ c ∈ t.calls, P c = true ∧ c.id = id := by
  simp [idsOf, and_assoc]

/-- A call that is added is the last one. -/
theorem ids_append : (t.append c).ids = t.ids ++ [c.id] := by
  simp [ids, append]

/-- A call that is added comes last where it belongs. -/
theorem idsOf_append : (t.append c).idsOf P = t.idsOf P ++ if P c then [c.id] else [] := by
  rw [idsOf, append, List.filter_append, List.map_append]
  cases h : P c <;> simp [idsOf, h]

/-- A call that is added changes nothing where it does not belong. -/
theorem idsOf_append_of_not (h : P c = false) : (t.append c).idsOf P = t.idsOf P := by
  rw [idsOf_append, h]
  exact List.append_nil _

/-- A call that does not wait for a pool does not queue there. -/
theorem queue_append_of_not (h : c.waitsFor p = false) : (t.append c).queue p = t.queue p :=
  idsOf_append_of_not h

/-- A call that holds no place of a pool is not among its holders. -/
theorem holders_append_of_not (h : c.occupies p = false) :
    (t.append c).holders p = t.holders p :=
  idsOf_append_of_not h

/-- A call that is added with a place is the last holder. -/
theorem holders_append (t : Traffic) (c : Call) (p : Pool) :
    (t.append c).holders p = t.holders p ++ if c.occupies p then [c.id] else [] :=
  idsOf_append

/-- Calls with one id are one call. -/
theorem eq_of_id (hnodup : t.ids.Nodup) (hc : c ∈ t.calls) (hd : d ∈ t.calls) (h : c.id = d.id) :
    c = d :=
  List.inj_on_of_nodup_map hnodup hc hd h

/-- Removing a call splits the traffic at it. -/
theorem calls_without (hnodup : t.ids.Nodup) (hc : c ∈ t.calls) :
    ∃ before behind, t.calls = before ++ c :: behind ∧
      (t.without c.id).calls = before ++ behind := by
  obtain ⟨d, before, behind, -, hid, hcalls, herase⟩ :=
    List.exists_of_eraseP hc (p := fun d => decide (d.id = c.id)) (decide_eq_true rfl)
  have hd : d ∈ t.calls := by
    rw [hcalls]
    exact List.mem_append_right _ List.mem_cons_self
  obtain rfl : d = c := eq_of_id hnodup hd hc (of_decide_eq_true hid)
  exact ⟨before, behind, hcalls, herase⟩

/-- A removed call is missing wherever it was, and nothing else is. -/
theorem idsOf_without (hnodup : t.ids.Nodup) (hc : c ∈ t.calls) :
    (t.without c.id).idsOf P = (t.idsOf P).erase c.id := by
  obtain ⟨before, behind, hcalls, hwithout⟩ := calls_without hnodup hc
  -- The id stands nowhere else in the list of calls, neither before the call nor behind it.
  have hfresh : c.id ∉ before.map Call.id := by
    rw [ids, hcalls, List.map_append, List.nodup_append] at hnodup
    intro hmem
    exact hnodup.2.2 c.id hmem c.id List.mem_cons_self rfl
  have hfreshP : c.id ∉ (before.filter P).map Call.id := fun h =>
    hfresh ((List.filter_sublist.map Call.id).subset h)
  have hbehind : c.id ∉ (behind.filter P).map Call.id := by
    rw [ids, hcalls, List.map_append, List.nodup_append] at hnodup
    intro hmem
    exact (List.nodup_cons.mp hnodup.2.1).1 ((List.filter_sublist.map Call.id).subset hmem)
  simp only [idsOf, hwithout, hcalls, List.filter_append, List.map_append]
  rw [List.erase_append_right _ hfreshP]
  cases hP : P c with
  | true => simp [hP]
  | false => simp [hP, List.erase_of_not_mem hbehind]

/-- A removed call is missing. -/
theorem ids_without (hnodup : t.ids.Nodup) (hc : c ∈ t.calls) :
    (t.without c.id).ids = t.ids.erase c.id := by
  have hall (s : Traffic) : s.idsOf (fun _ => true) = s.ids := by
    rw [idsOf, List.filter_eq_self.mpr fun _ _ => rfl, ids]
  rw [← hall, ← hall, idsOf_without hnodup hc]

/-- The ids of the calls with a property are distinct where all are. -/
theorem nodup_idsOf (hnodup : t.ids.Nodup) : (t.idsOf P).Nodup :=
  hnodup.sublist (List.filter_sublist.map Call.id)

/-- A call without a property is not among those with it. -/
theorem id_notMem_idsOf (hnodup : t.ids.Nodup) (hc : c ∈ t.calls) (hP : P c = false) :
    c.id ∉ t.idsOf P := by
  intro hmem
  obtain ⟨d, hd, hPd, hid⟩ := mem_idsOf.mp hmem
  obtain rfl := eq_of_id hnodup hd hc hid
  rw [hP] at hPd
  cases hPd

/-- A removed call is not missed where it was not. -/
theorem idsOf_without_of_not (hnodup : t.ids.Nodup) (hc : c ∈ t.calls) (hP : P c = false) :
    (t.without c.id).idsOf P = t.idsOf P := by
  rw [idsOf_without hnodup hc, List.erase_of_not_mem (id_notMem_idsOf hnodup hc hP)]

/-! ### Positions -/

/-- A call in a stage waits for no pool. -/
theorem waitsFor_of_timed {pool : Option Pool} {wake : Nat} {holds : List Span}
    (h : c.position = .timed pool wake holds) (p : Pool) : c.waitsFor p = false := by
  rw [Call.waitsFor, h]

/-- A call in a stage holds a place of the pool of the stage. -/
theorem occupies_of_timed {pool : Option Pool} {wake : Nat} {holds : List Span}
    (h : c.position = .timed pool wake holds) (p : Pool) :
    c.occupies p = decide (pool = some p) := by
  rw [Call.occupies, h]
  cases pool <;> simp

/-- A call in a queue holds no place. -/
theorem occupies_of_queued {q : Pool} {holds : List Span} (h : c.position = .queued q holds)
    (p : Pool) : c.occupies p = false := by
  rw [Call.occupies, h]

/-- A call in a queue waits for its pool. -/
theorem waitsFor_of_queued {q : Pool} {holds : List Span} (h : c.position = .queued q holds)
    (p : Pool) : c.waitsFor p = decide (q = p) := by
  rw [Call.waitsFor, h]

/-- A call that waits for a pool is in its queue. -/
theorem position_of_waitsFor (h : c.waitsFor p = true) :
    ∃ holds, c.position = .queued p holds := by
  rw [Call.waitsFor] at h
  split at h
  next q holds hpos => exact ⟨holds, by rw [hpos, of_decide_eq_true h]⟩
  next => cases h

/-- A call that enters a stage is inside it. -/
theorem position_enter (now : Nat) (pool : Option Pool) (holds : List Span) :
    ∃ wake rest, Position.enter now pool holds = .timed pool wake rest := by
  cases holds with
  | nil => exact ⟨now, [], rfl⟩
  | cons d rest => exact ⟨Clock.wake now d, rest, rfl⟩

end Traffic

/-! ### Orderly traffic -/

namespace Pool

variable {p : Pool} {log : List (Nat × Passage)} {now : Nat} {call : Nat}

/-- One more passage is what a pool sees last. -/
theorem history_append_one (passage : Nat × Passage) :
    p.history (log ++ [passage]) = (p.history log).after p passage :=
  p.history_append log [passage]

/-- A pool does not see who enters elsewhere. -/
theorem history_enters_of_ne {pool : Option Pool} (h : pool ≠ some p) :
    p.history (log ++ [(now, .enters call pool)]) = p.history log := by
  rw [history_append_one]
  simp [History.after, h]

/-- A pool does not see who leaves elsewhere. -/
theorem history_leaves_of_ne {pool : Option Pool} (h : pool ≠ some p) :
    p.history (log ++ [(now, .leaves call pool)]) = p.history log := by
  rw [history_append_one]
  simp [History.after, h]

/-- A pool does not see who waits elsewhere. -/
theorem history_waits_of_ne {q : Pool} (h : q ≠ p) :
    p.history (log ++ [(now, .waits call q)]) = p.history log := by
  rw [history_append_one]
  simp [History.after, h]

end Pool

namespace Traffic

/-- The calls are different, and what has happened at every pool fits those who wait for it and
those who are inside. -/
structure Orderly (t : Traffic) (now : Nat) (log : List (Nat × Passage)) : Prop where
  distinct : t.ids.Nodup
  pools : ∀ p : Pool, (p.history log).Fits (t.queue p) (t.holders p) (t.capacity p) now

/-- A pool that calls wait for has no free place. -/
def Busy (t : Traffic) (p : Pool) : Prop :=
  t.queue p ≠ [] → (t.holders p).length = t.capacity p

/-- Without calls everything is in order. -/
theorem orderly_idle (capacity : Pool → Nat) (now : Nat) : (idle capacity).Orderly now [] where
  distinct := List.nodup_nil
  pools p := History.fits_empty (capacity p) now

/-- Without calls nobody waits. -/
theorem busy_idle (capacity : Pool → Nat) (p : Pool) : (idle capacity).Busy p :=
  fun h => absurd rfl h

variable {t : Traffic} {now : Nat} {log : List (Nat × Passage)} {c : Call}

/-- A call takes up a position: the pools have to fit their histories with it. -/
theorem orderly_append (hnodup : t.ids.Nodup) (hid : c.id ∉ t.ids)
    (hpools : ∀ p : Pool, (p.history log).Fits (t.queue p ++ if c.waitsFor p then [c.id] else [])
      (t.holders p ++ if c.occupies p then [c.id] else []) (t.capacity p) now) :
    (t.append c).Orderly now log where
  distinct := by
    rw [ids_append]
    exact (List.perm_append_singleton _ _).nodup_iff.mpr (List.nodup_cons.mpr ⟨hid, hnodup⟩)
  pools p := by
    show (p.history log).Fits (idsOf _ _) (idsOf _ _) (t.capacity p) now
    rw [idsOf_append, idsOf_append]
    exact hpools p

namespace Orderly

/-- Order lasts while time passes. -/
theorem later (h : t.Orderly now log) {s : Nat} (hs : now ≤ s) : t.Orderly s log where
  distinct := h.distinct
  pools p := (h.pools p).later hs

/-! ### Leaving a stage and going on in it -/

/-- A call that is removed has not been there before it takes up its next position. -/
theorem id_notMem_without (h : t.Orderly now log) (hc : c ∈ t.calls) :
    c.id ∉ (t.without c.id).ids := by
  rw [ids_without h.distinct hc]
  exact h.distinct.not_mem_erase

/-- Distinct ids stay so without a call. -/
theorem distinct_without (h : t.Orderly now log) (hc : c ∈ t.calls) :
    (t.without c.id).ids.Nodup := by
  rw [ids_without h.distinct hc]
  exact h.distinct.erase c.id

/-- A call leaves its stage. -/
theorem leave (h : t.Orderly now log) (hc : c ∈ t.calls) {pool : Option Pool} {wake : Nat}
    {holds : List Span} (hpos : c.position = .timed pool wake holds) :
    (t.without c.id).Orderly now (log ++ [(now, .leaves c.id pool)]) where
  distinct := h.distinct_without hc
  pools p := by
    have hqueue : (t.without c.id).queue p = t.queue p :=
      idsOf_without_of_not h.distinct hc (waitsFor_of_timed hpos p)
    show (p.history _).Fits _ _ (t.capacity p) now
    rw [hqueue]
    -- Only the pool of the stage sees the call leave; the others keep their queue and their
    -- holders.
    by_cases hp : pool = some p
    · have hholders : (t.without c.id).holders p = (t.holders p).erase c.id :=
        idsOf_without h.distinct hc
      subst hp
      rw [hholders, Pool.history_append_one]
      exact (h.pools p).leave (nodup_idsOf h.distinct) p c.id
    · have hholders : (t.without c.id).holders p = t.holders p := by
        refine idsOf_without_of_not h.distinct hc ?_
        rw [occupies_of_timed hpos, decide_eq_false hp]
      rw [hholders, Pool.history_leaves_of_ne hp]
      exact h.pools p

/-- A call that leaves frees a place of its pool, which is the only free one if somebody waits. -/
theorem leave_frees (h : t.Orderly now log) (hbusy : ∀ p, t.Busy p) (hc : c ∈ t.calls) {p : Pool}
    {wake : Nat} {holds : List Span} (hpos : c.position = .timed (some p) wake holds) :
    ((t.without c.id).holders p).length < t.capacity p ∧
      ((t.without c.id).queue p ≠ [] →
        ((t.without c.id).holders p).length + 1 = t.capacity p) := by
  have hin : c.occupies p = true := by
    rw [occupies_of_timed hpos]
    exact decide_eq_true rfl
  have hmem : c.id ∈ t.holders p := mem_idsOf.mpr ⟨c, hc, hin, rfl⟩
  have hholders : (t.without c.id).holders p = (t.holders p).erase c.id :=
    idsOf_without h.distinct hc
  have hqueue : (t.without c.id).queue p = t.queue p :=
    idsOf_without_of_not h.distinct hc (waitsFor_of_timed hpos p)
  -- The call held a place, and where somebody waited all places were taken.
  have hpositive : 0 < (t.holders p).length := List.length_pos_of_mem hmem
  have hwithin := (h.pools p).within
  rw [hholders, hqueue, List.length_erase_of_mem hmem]
  refine ⟨by omega, fun hne => ?_⟩
  have hfull := hbusy p hne
  omega

/-- A call that leaves frees no place of another pool. -/
theorem leave_busy (h : t.Orderly now log) (hc : c ∈ t.calls) {pool : Option Pool} {wake : Nat}
    {holds : List Span} (hpos : c.position = .timed pool wake holds) {p : Pool}
    (hp : pool ≠ some p) (hbusy : t.Busy p) : (t.without c.id).Busy p := by
  intro hne
  have hholders : (t.without c.id).holders p = t.holders p := by
    refine idsOf_without_of_not h.distinct hc ?_
    rw [occupies_of_timed hpos, decide_eq_false hp]
  have hqueue : (t.without c.id).queue p = t.queue p :=
    idsOf_without_of_not h.distinct hc (waitsFor_of_timed hpos p)
  rw [hqueue] at hne
  rw [hholders]
  exact hbusy hne

/-- A call goes on inside its stage. -/
theorem renew (h : t.Orderly now log) (hbusy : ∀ p, t.Busy p) (hc : c ∈ t.calls)
    {pool : Option Pool} {wake : Nat} {holds : List Span}
    (hpos : c.position = .timed pool wake holds) (next : Nat) (rest : List Span) :
    let renewed := (t.without c.id).append { c with position := .timed pool next rest }
    renewed.Orderly now log ∧ ∀ p, renewed.Busy p := by
  intro renewed
  have hqueue (p : Pool) : (t.without c.id).queue p = t.queue p :=
    idsOf_without_of_not h.distinct hc (waitsFor_of_timed hpos p)
  have hholders (p : Pool) : (t.without c.id).holders p = (t.holders p).erase c.id :=
    idsOf_without h.distinct hc
  -- The call is among the holders as before, though at another place in the list.
  have hperm (p : Pool) :
      ((t.holders p).erase c.id ++ if c.occupies p then [c.id] else []).Perm (t.holders p) := by
    cases hin : c.occupies p with
    | true =>
      have hmem : c.id ∈ t.holders p := mem_idsOf.mpr ⟨c, hc, hin, rfl⟩
      exact (List.perm_append_singleton _ _).trans (List.perm_cons_erase hmem).symm
    | false =>
      have hout : c.id ∉ t.holders p := id_notMem_idsOf h.distinct hc hin
      rw [List.erase_of_not_mem hout]
      simp
  have hsame (p : Pool) :
      Call.occupies { c with position := .timed pool next rest } p = c.occupies p := by
    rw [occupies_of_timed hpos, occupies_of_timed rfl]
  refine ⟨orderly_append (h.distinct_without hc) (h.id_notMem_without hc) fun p => ?_,
    fun p hne => ?_⟩
  · rw [waitsFor_of_timed rfl p, hsame, hqueue, hholders]
    show (p.history log).Fits _ _ (t.capacity p) now
    simpa using (h.pools p).perm (hperm p)
  · show List.length _ = t.capacity p
    rw [holders_append, hsame, hholders, (hperm p).length_eq]
    rw [queue_append_of_not (waitsFor_of_timed rfl p), hqueue] at hne
    exact hbusy p hne

/-! ### Taking over a place -/

/-- A free place goes to the call that waits longest. -/
theorem handOver (h : t.Orderly now log) {p : Pool} {holds : List Span}
    (hfirst : t.calls.find? (·.waitsFor p) = some c) (hpos : c.position = .queued p holds)
    (hroom : (t.holders p).length < t.capacity p) :
    ((t.without c.id).append { c with position := .enter now (some p) holds }).Orderly now
      (log ++ [(now, .enters c.id (some p))]) := by
  have hc : c ∈ t.calls := List.mem_of_find?_eq_some hfirst
  obtain ⟨wake, rest, henter⟩ := position_enter now (some p) holds
  rw [henter]
  refine orderly_append (h.distinct_without hc) (h.id_notMem_without hc) fun q => ?_
  -- Nobody gives up a place, for a call in a queue holds none.
  have hholders : (t.without c.id).holders q = t.holders q :=
    idsOf_without_of_not h.distinct hc (occupies_of_queued hpos q)
  rw [waitsFor_of_timed rfl q, occupies_of_timed rfl, hholders]
  show (q.history _).Fits _ _ (t.capacity q) now
  by_cases hq : p = q
  · -- the first call that waits is the head of the queue
    subst hq
    obtain ⟨others, hqueue⟩ : ∃ others, t.queue p = c.id :: others := by
      rw [← List.head?_filter] at hfirst
      obtain ⟨others, hothers⟩ := List.head?_eq_some_iff.mp hfirst
      exact ⟨others.map Call.id, by rw [queue, idsOf, hothers]; rfl⟩
    have hrest : (t.without c.id).queue p = others := by
      have herase : (t.without c.id).queue p = (t.queue p).erase c.id :=
        idsOf_without h.distinct hc
      rw [herase, hqueue, List.erase_cons_head]
    have hfits := h.pools p
    rw [hqueue] at hfits
    rw [hrest, Pool.history_append_one]
    simpa using hfits.grant hroom p
  · have hother : some p ≠ some q := fun h => hq (Option.some.inj h)
    have hqueue : (t.without c.id).queue q = t.queue q := by
      refine idsOf_without_of_not h.distinct hc ?_
      rw [waitsFor_of_queued hpos, decide_eq_false hq]
    rw [hqueue, Pool.history_enters_of_ne hother]
    simpa [hq] using h.pools q

end Orderly

/-- A place that nobody takes over is free for nobody who waits. -/
theorem queue_eq_nil_of_find? {p : Pool} (h : t.calls.find? (·.waitsFor p) = none) :
    t.queue p = [] := by
  rw [queue, idsOf, List.map_eq_nil_iff, List.filter_eq_nil_iff]
  exact List.find?_eq_none.mp h

/-- A released place is taken over, or nobody waits for it; afterwards every pool is busy. -/
theorem Orderly.release (h : t.Orderly now log) {pool : Option Pool}
    (hfree : ∀ p, pool = some p → (t.holders p).length < t.capacity p ∧
      (t.queue p ≠ [] → (t.holders p).length + 1 = t.capacity p))
    (hbusy : ∀ p, pool ≠ some p → t.Busy p) :
    (t.release now pool).1.Orderly now (log ++ (t.release now pool).2.map fun e => (now, e)) ∧
      (∀ p, (t.release now pool).1.Busy p) ∧
      (t.release now pool).1.ids.Perm t.ids := by
  cases pool with
  | none =>
    refine ⟨by simpa [Traffic.release] using h, fun p => hbusy p (by simp), List.Perm.refl _⟩
  | some p =>
    obtain ⟨hroom, hlast⟩ := hfree p rfl
    rw [Traffic.release, Traffic.grant]
    -- If nobody waits the place stays free, else the first in the queue takes it.
    cases hfirst : t.calls.find? (·.waitsFor p) with
    | none =>
      refine ⟨by simpa using h, fun q => ?_, List.Perm.refl _⟩
      by_cases hq : p = q
      · subst hq
        exact fun hne => absurd (queue_eq_nil_of_find? hfirst) hne
      · exact hbusy q fun hsame => hq (Option.some.inj hsame)
    | some c =>
      have hc : c ∈ t.calls := List.mem_of_find?_eq_some hfirst
      have hwaits : c.waitsFor p = true := by simpa using List.find?_some hfirst
      obtain ⟨holds, hpos⟩ := position_of_waitsFor hwaits
      have horderly := h.handOver hfirst hpos hroom
      simp only [hpos]
      refine ⟨horderly, fun q => ?_, ?_⟩
      · obtain ⟨wake, rest, henter⟩ := position_enter now (some p) holds
        have hholders : (t.without c.id).holders q = t.holders q :=
          idsOf_without_of_not h.distinct hc (occupies_of_queued hpos q)
        have hqueue : (t.without c.id).queue q = (t.queue q).erase c.id :=
          idsOf_without h.distinct hc
        -- Where somebody still waits, somebody waited before, and the place that was free is taken
        -- again.
        intro hne
        rw [henter, queue_append_of_not (waitsFor_of_timed rfl q), hqueue] at hne
        have hwaiting : t.queue q ≠ [] := fun hnil => hne (by rw [hnil]; rfl)
        show List.length _ = t.capacity q
        rw [henter, holders_append, occupies_of_timed rfl, hholders]
        by_cases hq : p = q
        · subst hq
          simpa using hlast hwaiting
        · have hold := hbusy q (fun hsame => hq (Option.some.inj hsame)) hwaiting
          simpa [hq] using hold
      · rw [ids_append, ids_without h.distinct hc]
        have hmem : c.id ∈ t.ids := List.mem_map_of_mem hc
        exact (List.perm_append_singleton _ _).trans (List.perm_cons_erase hmem).symm

/-! ### The next stage -/

/-- A new position that concerns no pool. -/
private theorem place_idle (h : t.Orderly now log) (hbusy : ∀ p, t.Busy p) (hid : c.id ∉ t.ids)
    (hwaits : ∀ p, c.waitsFor p = false) (hoccupies : ∀ p, c.occupies p = false)
    {more : List (Nat × Passage)} (hmore : ∀ p : Pool, p.history (log ++ more) = p.history log) :
    (t.append c).Orderly now (log ++ more) ∧ ∀ p, (t.append c).Busy p := by
  refine ⟨orderly_append h.distinct hid fun p => ?_, fun p => ?_⟩
  · rw [hmore, hwaits, hoccupies]
    simpa using h.pools p
  · intro hne
    rw [queue_append_of_not (hwaits p)] at hne
    rw [holders_append_of_not (hoccupies p)]
    exact hbusy p hne

/-- A call enters a pool that has room. -/
private theorem place_enter (h : t.Orderly now log) (hbusy : ∀ p, t.Busy p) (hid : c.id ∉ t.ids)
    {p : Pool} {wake : Nat} {holds : List Span} (hpos : c.position = .timed (some p) wake holds)
    (hroom : (t.holders p).length < t.capacity p) :
    (t.append c).Orderly now (log ++ [(now, .enters c.id (some p))]) ∧
      ∀ q, (t.append c).Busy q := by
  -- a pool with room has nobody who waits
  have hnobody : t.queue p = [] := by
    by_contra hne
    exact absurd (hbusy p hne) (Nat.ne_of_lt hroom)
  refine ⟨orderly_append h.distinct hid fun q => ?_, fun q hne => ?_⟩
  · rw [waitsFor_of_timed hpos q, occupies_of_timed hpos]
    by_cases hq : p = q
    · subst hq
      have hfits := h.pools p
      rw [hnobody] at hfits
      rw [hnobody]
      simpa [Pool.history_append_one] using hfits.enter hroom p c.id
    · have hother : some p ≠ some q := fun h => hq (Option.some.inj h)
      rw [Pool.history_enters_of_ne hother]
      simpa [hq] using h.pools q
  · rw [queue_append_of_not (waitsFor_of_timed hpos q)] at hne
    have hq : p ≠ q := by
      rintro rfl
      exact hne hnobody
    rw [holders_append_of_not (by rw [occupies_of_timed hpos]; simpa using hq)]
    exact hbusy q hne

/-- A call waits for a pool without room. -/
private theorem place_wait (h : t.Orderly now log) (hbusy : ∀ p, t.Busy p) (hid : c.id ∉ t.ids)
    {p : Pool} {holds : List Span} (hpos : c.position = .queued p holds)
    (hroom : ¬(t.holders p).length < t.capacity p) :
    (t.append c).Orderly now (log ++ [(now, .waits c.id p)]) ∧ ∀ q, (t.append c).Busy q := by
  -- There is no room, so all places of the pool are taken.
  have hfull : (t.holders p).length = t.capacity p :=
    Nat.le_antisymm (h.pools p).within (Nat.le_of_not_lt hroom)
  refine ⟨orderly_append h.distinct hid fun q => ?_, fun q hne => ?_⟩
  · rw [waitsFor_of_queued hpos q, occupies_of_queued hpos]
    by_cases hq : p = q
    · subst hq
      simpa [Pool.history_append_one] using (h.pools p).wait p c.id
    · rw [Pool.history_waits_of_ne hq]
      simpa [hq] using h.pools q
  · rw [holders_append_of_not (occupies_of_queued hpos q)]
    by_cases hq : p = q
    · exact hq ▸ hfull
    · rw [queue_append_of_not (by rw [waitsFor_of_queued hpos, decide_eq_false hq])] at hne
      exact hbusy q hne

/-- **A call goes on to its next stage**: it enters if there is room and waits otherwise. -/
theorem Orderly.place (h : t.Orderly now log) (hbusy : ∀ p, t.Busy p) {id : Nat}
    (hid : id ∉ t.ids) (reply : Option Reply) (stages : List Stage) :
    (t.place now id reply stages).1.Orderly now
        (log ++ (t.place now id reply stages).2.map fun e => (now, e)) ∧
      ∀ p, (t.place now id reply stages).1.Busy p := by
  cases stages with
  -- Behind the last stage the call returns, or it has no reply and stays for ever.
  | nil =>
    cases reply with
    | some r =>
      refine ⟨⟨h.distinct, fun p => ?_⟩, hbusy⟩
      show (p.history (log ++ [(now, .returns id r)])).Fits _ _ _ _
      rw [Pool.history_append_one]
      exact h.pools p
    | none =>
      exact place_idle h hbusy hid (fun _ => rfl) (fun _ => rfl) fun p =>
        congrArg p.history (List.append_nil log)
  | cons s behind =>
    rw [Traffic.place]
    -- A stage without a pool is entered at once; one with a pool is entered if it has room.
    cases hpool : s.pool with
    | none =>
      obtain ⟨wake, rest, henter⟩ := position_enter now none s.holds
      simp only [henter]
      refine place_idle h hbusy hid (fun p => waitsFor_of_timed rfl p)
        (fun p => by rw [occupies_of_timed rfl]; simp) fun p => ?_
      exact Pool.history_enters_of_ne (by simp)
    | some p =>
      obtain ⟨wake, rest, henter⟩ := position_enter now (some p) s.holds
      simp only [inUse_eq, henter]
      by_cases hroom : (t.holders p).length < t.capacity p
      · rw [if_pos hroom]
        exact place_enter h hbusy hid rfl hroom
      · rw [if_neg hroom]
        exact place_wait h hbusy hid rfl hroom

/-! ### Moves -/

/-- **A new call keeps the traffic orderly and busy.** -/
theorem Orderly.submit (h : t.Orderly now log) (hbusy : ∀ p, t.Busy p) {id : Nat}
    (hid : id ∉ t.ids) (i : Itinerary) :
    (t.submit now id i).1.Orderly now
        (log ++ (t.submit now id i).2.map fun e => (now, e)) ∧
      ∀ p, (t.submit now id i).1.Busy p :=
  h.place hbusy hid i.reply i.stages

/-- **The next move of a call keeps the traffic orderly and busy.** -/
theorem Orderly.expire (h : t.Orderly now log) (hbusy : ∀ p, t.Busy p) (hc : c ∈ t.calls) :
    (t.expire now c).1.Orderly now
        (log ++ (t.expire now c).2.map fun e => (now, e)) ∧
      ∀ p, (t.expire now c).1.Busy p := by
  rw [Traffic.expire]
  -- A call that waits makes no move of its own.
  cases hpos : c.position with
  | queued q holds => exact ⟨by simpa using h, hbusy⟩
  | unanswered => exact ⟨by simpa using h, hbusy⟩
  | timed pool wake holds =>
    cases holds with
    | cons d rest =>
      simp only [List.map_nil, List.append_nil]
      exact h.renew hbusy hc hpos _ rest
    | nil =>
      -- Behind the last hold the call leaves its stage, its place is released, and it goes on.
      have hleft := h.leave hc hpos
      obtain ⟨hreleased, hreleasedBusy, hids⟩ := hleft.release
        (fun p hp => h.leave_frees hbusy hc (hp ▸ hpos))
        (fun p hp => h.leave_busy hc hpos hp (hbusy p))
      have hgone : c.id ∉ ((t.without c.id).release now pool).1.ids := fun hmem =>
        h.id_notMem_without hc (hids.mem_iff.mp hmem)
      have hplaced := hreleased.place hreleasedBusy hgone c.reply c.later
      simpa only [List.map_cons, List.map_append, List.append_assoc, List.singleton_append,
        List.cons_append, List.nil_append] using hplaced

end Traffic

end ClosedLoop
