import ClosedLoop.Proofs.Service.Backlog

namespace ClosedLoop

/-!
# Every request is settled

Every step but the passing of time takes some call further, and time passes at most once before each
of them. So nothing goes on for ever; and as long as calls are in service or to arrive, something
may happen. What is left in the end is an endpoint without calls.

* `Call.moves`, `Arrivals.moves` — how often the calls can still move;
* `Arrivals.Leads.steps_le` — **so many steps are possible at most**;
* `Arrivals.Leads.returned_of_not` — a call that is neither to arrive nor in service has returned;
* `Arrivals.settled_run` — the run of a list of requests ends with all of them settled;
* `Arrivals.deadline`, `Arrivals.Flows` — by when all requests have returned, and how they flow
  until then;
* `ResourceModel.never_deadlocks` — **the resource model never deadlocks, and its backlog is bounded
  by the offered work**.
-/

/-! ### How often calls can move -/

/-- How often a call can move inside its stages. -/
def stageMoves (stages : List Stage) : Nat := (stages.map fun s => s.holds.length + 1).sum

/-- How often a call can move in the stage where it is or that it waits for. -/
def Position.moves : Position → Nat
  | .queued _ holds => holds.length + 1
  | .timed _ _ holds => holds.length + 1
  | .unanswered => 0

/-- A call that enters a stage moves once for each of its holds and once to leave. -/
theorem Position.moves_enter (now : Nat) (pool : Option Pool) (holds : List Span) :
    (Position.enter now pool holds).moves ≤ holds.length + 1 := by
  cases holds with
  | nil => exact Nat.le_refl _
  | cons d rest => exact Nat.le_succ _

namespace Call

/-- How often a call can still move. -/
def moves (c : Call) : Nat := c.position.moves + stageMoves c.later

variable {now id : Nat} {reply : Option Reply} {stages : List Stage} {c d : Call}

/-- A call that is placed has no more moves than its stages. -/
theorem Placed.moves_le (h : Placed now id reply stages d) : d.moves ≤ stageMoves stages := by
  cases h with
  | enters s later => exact Nat.add_le_add_right (Position.moves_enter now s.pool s.holds) _
  | waits s later => exact Nat.le_refl _
  | stays => exact Nat.le_refl _

/-- A call that is admitted has no more moves than before. -/
theorem Admitted.moves_le (h : c.Admitted now d) : d.moves ≤ c.moves := by
  cases h with
  | stays => exact Nat.le_refl _
  | enters hpos =>
    rw [moves, moves, hpos]
    exact Nat.add_le_add_right (Position.moves_enter _ _ _) _

/-- A call that goes on has fewer moves than before. -/
theorem Goes.moves_lt (h : c.Goes now d) : d.moves < c.moves := by
  cases h with
  | renews hpos =>
    rw [moves, moves, hpos]
    exact Nat.add_lt_add_right (Nat.lt_succ_self _) _
  | passes hpos _ hd =>
    have hle := hd.moves_le
    show d.moves < c.position.moves + stageMoves c.later
    rw [hpos, Position.moves]
    omega

/-- A call that ends had a move left. -/
theorem Ends.moves_pos {r : Reply} (h : c.Ends now r) : 0 < c.moves := by
  obtain ⟨pool, wake, hpos, -⟩ := h.timed
  rw [moves, hpos, Position.moves]
  omega

/-- A call that cannot move stays for ever. -/
theorem position_of_moves (h : c.moves = 0) : c.position = .unanswered := by
  cases hpos : c.position with
  | unanswered => rfl
  | queued => rw [moves, hpos, Position.moves] at h; omega
  | timed => rw [moves, hpos, Position.moves] at h; omega

end Call

/-- An itinerary has the transitions of its stages and the last one. -/
theorem Itinerary.transitions_eq (i : Itinerary) : i.transitions = stageMoves i.stages + 1 := by
  unfold transitions stageMoves
  induction i.stages with
  | nil => rfl
  | cons s rest ih =>
    rw [List.foldr_cons, ih, List.map_cons, List.sum_cons]
    omega

namespace Arrivals

/-- How often calls that are to arrive can move, their arrival included. -/
def movesAhead (pending : List Arrival) : Nat :=
  (pending.map fun a => a.itinerary.transitions + 1).sum

/-- How often calls can still move. -/
def moves (s : Arrivals) : Nat := movesAhead s.pending + (s.traffic.calls.map Call.moves).sum

variable {arrivals pending : List Arrival} {s s' first : Arrivals} {n : Nat}

/-- The order of arrivals does not change how much is ahead. -/
theorem movesAhead_perm {others : List Arrival} (h : pending.Perm others) :
    movesAhead pending = movesAhead others :=
  (h.map _).sum_eq

/-- An arrival has the moves of its stages ahead, and two more. -/
theorem movesAhead_cons (a : Arrival) (rest : List Arrival) :
    movesAhead (a :: rest) = stageMoves a.itinerary.stages + 2 + movesAhead rest := by
  rw [movesAhead, List.map_cons, List.sum_cons, a.itinerary.transitions_eq]
  rfl

/-- Twice as many steps are what a run allows for. -/
theorem movesAhead_eq (arrivals : List Arrival) :
    movesAhead arrivals = arrivals.foldr (fun a n => a.itinerary.transitions + 1 + n) 0 := by
  rw [movesAhead, List.sum, List.foldr_map]

/-- At first everything is ahead. -/
theorem moves_start (capacity : Pool → Nat) (arrivals : List Arrival) :
    (start capacity arrivals).moves = movesAhead arrivals :=
  movesAhead_perm (pending_start capacity arrivals)

/-- Where no call can move, none is to arrive, and those in service stay for ever. -/
theorem finished_of_moves (h : s.moves = 0) :
    s.pending = [] ∧ ∀ c ∈ s.traffic.calls, c.position = .unanswered := by
  obtain ⟨hpending, hcalls⟩ := Nat.add_eq_zero_iff.mp h
  refine ⟨?_, fun c hc => Call.position_of_moves ?_⟩
  · cases hlist : s.pending with
    | nil => rfl
    | cons a rest =>
      rw [hlist, movesAhead_cons] at hpending
      omega
  · exact List.sum_eq_zero_iff.mp hcalls _ (List.mem_map_of_mem hc)

/-- Calls that are admitted have no more moves ahead than before. -/
theorem sum_moves_admitted {now : Nat} {others admitted : List Call}
    (h : List.Forall₂ (Call.Admitted now) others admitted) :
    (admitted.map Call.moves).sum ≤ (others.map Call.moves).sum := by
  induction h with
  | nil => exact Nat.le_refl 0
  | cons hc _ ih =>
    rw [List.map_cons, List.map_cons, List.sum_cons, List.sum_cons]
    exact Nat.add_le_add hc.moves_le ih

/-- Every step but the passing of time takes some call further. -/
theorem Changes.moves_lt (h : s.Changes s') (hnow : s'.now = s.now) : s'.moves < s.moves := by
  unfold moves
  cases h with
  -- One call goes on, ends or arrives, and the others have no more moves than before.
  | goes _ hpending hcalls hadmitted hgoes hcalls' =>
    have hless := hgoes.moves_lt
    have hothers := sum_moves_admitted hadmitted
    rw [hpending, (hcalls'.map _).sum_eq, (hcalls.map _).sum_eq, List.map_cons, List.map_cons,
      List.sum_cons, List.sum_cons]
    omega
  | ends _ hpending hcalls hadmitted hends hcalls' =>
    have hless := hends.moves_pos
    have hothers := sum_moves_admitted hadmitted
    rw [hpending, (hcalls'.map _).sum_eq, (hcalls.map _).sum_eq, List.map_cons, List.sum_cons]
    omega
  | arrives _ _ hpending hd hcalls' =>
    have hle := hd.moves_le
    rw [movesAhead_perm hpending, movesAhead_cons, (hcalls'.map _).sum_eq, List.map_cons,
      List.sum_cons]
    omega
  | turns _ _ hpending _ _ hcalls' =>
    rw [movesAhead_perm hpending, movesAhead_cons, hcalls']
    omega
  | waits hlater _ hs' =>
    rw [hs'] at hnow
    exact absurd hnow.symm (Nat.ne_of_lt hlater)

/-- Time passes at most once before each move: where nothing is due, it has not just passed. -/
private theorem Leads.steps_le_aux (h : Leads first n s) (hnodup : first.known.Nodup) :
    n + 2 * s.moves ≤ 2 * first.moves + 1 ∧
      ((∀ t, s.Upcoming t → s.now < t) → n + 2 * s.moves ≤ 2 * first.moves) := by
  induction h with
  | here => exact ⟨by omega, fun _ => by omega⟩
  | @next n s s' h hnext ih =>
    obtain ⟨hle, hidle⟩ := ih
    have hchanges := hnext.changes
      (nodup_ids_of_known ((h.known_perm hnodup).nodup_iff.mpr hnodup))
    -- A step without time costs a move, and one with time can only come where nothing is due.
    by_cases hnow : s'.now = s.now
    · have hless := hchanges.moves_lt hnow
      exact ⟨by omega, fun _ => by omega⟩
    · cases hchanges with
      | @waits t hlater hupcoming hs' =>
        subst hs'
        have hfuture : ∀ u, s.Upcoming u → s.now < u := fun u hu =>
          Nat.lt_of_lt_of_le hlater (hupcoming.le hu)
        have hold := hidle hfuture
        refine ⟨?_, fun hagain => absurd (hagain t ?_) (Nat.lt_irrefl t)⟩
        · show n + 1 + 2 * s.moves ≤ _
          omega
        · exact ⟨hupcoming.calls, hupcoming.arrivals, hupcoming.reached⟩
      | goes hsame => exact absurd hsame hnow
      | ends hsame => exact absurd hsame hnow
      | arrives hsame => exact absurd hsame hnow
      | turns hsame => exact absurd hsame hnow

/-- **So many steps are possible at most.** -/
theorem Leads.steps_le (h : Leads first n s) (hnodup : first.known.Nodup) :
    n + 2 * s.moves ≤ 2 * first.moves + 1 :=
  (h.steps_le_aux hnodup).1

/-! ### Calls that have returned -/

/-- When a call returned and with what, if it is among the returns. -/
theorem exists_returned? {t id : Nat} {reply : Reply} (h : (t, id, reply) ∈ s.returns) :
    ∃ u r, s.returned? id = some (u, r) ∧ (u, id, r) ∈ s.returns := by
  have hlog := mem_returns.mp h
  cases hfound : s.returned? id with
  | none =>
    -- The call is among the returns, so the first return of this id is found, if not this one.
    rw [returned?, List.findSome?_eq_none_iff] at hfound
    have hnone := hfound _ hlog
    simp at hnone
  | some e =>
    refine ⟨e.1, e.2, rfl, mem_returns.mpr ?_⟩
    obtain ⟨⟨u, p⟩, hmem, hp⟩ := List.exists_of_findSome?_eq_some hfound
    cases p with
    | returns call r =>
      by_cases hcall : call = id
      · simp only [hcall, if_true, Option.some.injEq] at hp
        rw [← hp, ← hcall]
        exact hmem
      · simp [hcall] at hp
    | _ => cases hp

/-- The calls known in a schedule are those of the arrivals, each once. -/
theorem Leads.known_arrivals {capacity : Pool → Nat} (h : Leads (start capacity arrivals) n s)
    (hids : (arrivals.map Arrival.id).Nodup) :
    s.known.Perm (arrivals.map Arrival.id) ∧ s.known.Nodup := by
  have hstart := known_start capacity arrivals
  have hknown := (h.known_perm (hstart.nodup_iff.mpr hids)).trans hstart
  exact ⟨hknown, hknown.nodup_iff.mpr hids⟩

/-- A call that is neither to arrive nor in service has returned. -/
theorem Leads.returned_of_not {capacity : Pool → Nat} (h : Leads (start capacity arrivals) n s)
    (hids : (arrivals.map Arrival.id).Nodup) {a : Arrival} (ha : a ∈ arrivals)
    (hpending : a ∉ s.pending) (hservice : a.id ∉ s.traffic.ids) :
    ∃ t reply, (t, a.id, reply) ∈ s.returns := by
  -- A call is known all the time: it is to arrive, in service or has returned.
  obtain ⟨hknown, -⟩ := h.known_arrivals hids
  have hid : a.id ∈ s.known := hknown.mem_iff.mpr (List.mem_map_of_mem ha)
  rcases List.mem_append.mp hid with harrives | hid
  · -- ids are different, so an arrival with this id is this one
    obtain ⟨b, hb, hsame⟩ := List.mem_map.mp harrives
    have hmem := (h.punctual hids).pending b hb
    obtain rfl : b = a := List.inj_on_of_nodup_map hids hmem ha hsame
    exact absurd hb hpending
  · rcases List.mem_append.mp hid with hcall | hreturned
    · exact absurd hcall hservice
    · obtain ⟨⟨t, call, reply⟩, hmem, rfl⟩ := List.mem_map.mp hreturned
      exact ⟨t, reply, hmem⟩

end Arrivals

/-! ### Requests to a resource model -/

namespace ResourceModel

/-- Requests to a resource model: different ones, each with some cost and data node. -/
structure Gets (m : ResourceModel) (arrivals : List Arrival) : Prop where
  distinct : (arrivals.map Arrival.id).Nodup
  serves : ∀ a ∈ arrivals, m.Serves a.itinerary

end ResourceModel

namespace Arrivals

variable {config : ResourceConfig} {m : ResourceModel} {arrivals : List Arrival}
  {s s' : Arrivals} {n limit : Nat}

/-- No request to a resource model stays for ever. -/
theorem Leads.stays (hgets : m.Gets arrivals) (h : Leads (start m.capacity arrivals) n s) :
    ∀ c ∈ s.traffic.calls, c.position ≠ .unanswered := by
  intro c hc hpos
  obtain ⟨a, ha, hcovers⟩ := (h.punctual hgets.distinct).calls c hc
  obtain ⟨cost, node, -, hitinerary⟩ := hgets.serves a ha
  have hreply := hcovers.reply.symm.trans (hcovers.silent hpos)
  rw [hitinerary] at hreply
  cases hreply

/-- **As long as requests are in service, one of them is inside a stage.** -/
theorem Leads.exists_inside (hbuild : ResourceModel.build config = .ok m) (hgets : m.Gets arrivals)
    (h : Leads (start m.capacity arrivals) n s) (hcalls : s.traffic.calls ≠ []) :
    ∃ c ∈ s.traffic.calls, ∃ wake, c.wake? = some wake := by
  obtain ⟨arrived, hreachable, -⟩ := h.reachable hgets.distinct hgets.serves
  have hsound := hreachable.sound fun _ hi => ResourceModel.capacity_pos hbuild hi
  exact hsound.exists_inside (h.stays hgets) hcalls

/-- Something may happen as long as a request is to arrive or in service. -/
theorem Leads.exists_next (hbuild : ResourceModel.build config = .ok m) (hgets : m.Gets arrivals)
    (h : Leads (start m.capacity arrivals) n s)
    (hleft : ¬(s.pending = [] ∧ s.traffic.calls = [])) : ∃ s', s.Next s' := by
  by_cases hcalls : s.traffic.calls = []
  · exact Arrivals.exists_next (.inr fun hpending => hleft ⟨hpending, hcalls⟩)
  · exact Arrivals.exists_next (.inl (h.exists_inside hbuild hgets hcalls))

/-- The backlog is worked off without a break. -/
theorem Leads.backlogged (hbuild : ResourceModel.build config = .ok m) (hgets : m.Gets arrivals)
    (hticks : ∀ a ∈ arrivals, Clock.tick ∣ a.instant)
    (h : Leads (start m.capacity arrivals) n s) : s.Backlogged arrivals := by
  have hknown := (known_start m.capacity arrivals).nodup_iff.mpr hgets.distinct
  refine h.invariant hknown (backlogged_start m.capacity hticks) fun _ _ _ hleads hchanges hs => ?_
  exact hchanges.backlogged hs (hleads.punctual hgets.distinct).pending
    (hleads.exists_inside hbuild hgets)

/-- The clock never goes beyond the last arrival and the work that was offered. -/
theorem Leads.now_le (hbuild : ResourceModel.build config = .ok m) (hgets : m.Gets arrivals)
    (hticks : ∀ a ∈ arrivals, Clock.tick ∣ a.instant)
    (h : Leads (start m.capacity arrivals) n s) :
    s.now ≤ lastInstant arrivals + offered arrivals :=
  Nat.le_trans (Nat.le_add_right _ _) (h.backlogged hbuild hgets hticks).work

/-- **The run of a list of requests ends with all of them settled**, if it may go on so long. -/
theorem settled_run (hbuild : ResourceModel.build config = .ok m) (hgets : m.Gets arrivals)
    (hticks : ∀ a ∈ arrivals, Clock.tick ∣ a.instant)
    (hlimit : lastInstant arrivals + offered arrivals ≤ limit) :
    ∃ n, Leads (start m.capacity arrivals) n (run m.capacity limit arrivals) ∧
      (run m.capacity limit arrivals).pending = [] ∧
      (run m.capacity limit arrivals).traffic.calls = [] := by
  obtain ⟨n, hn, hend⟩ := (sorted_start m.capacity arrivals).leads_runWithin
    Leads.here limit (2 * arrivals.foldr (fun a n => a.itinerary.transitions + 1 + n) 0 + 1)
  refine ⟨n, hn, ?_⟩
  rcases hend with hfuel | hstop
  · -- so many steps are not possible if calls can still move
    have hstart := known_start m.capacity arrivals
    have hsteps := hn.steps_le (hstart.nodup_iff.mpr hgets.distinct)
    rw [hfuel, moves_start, movesAhead_eq] at hsteps
    have hnone : (run m.capacity limit arrivals).moves = 0 := by
      show (runWithin limit _ _).moves = 0
      omega
    obtain ⟨hpending, hcalls⟩ := finished_of_moves hnone
    refine ⟨hpending, List.eq_nil_iff_forall_not_mem.mpr fun c hc => ?_⟩
    exact hn.stays hgets c hc (hcalls c hc)
  · by_contra hleft
    obtain ⟨s', hnext⟩ := hn.exists_next hbuild hgets hleft
    have hlater := hstop s' hnext
    have hnow := (hn.next hnext).now_le hbuild hgets hticks
    omega

/-- A call in service has not returned. -/
theorem not_returned_of_call {t : Nat} {reply : Reply} (hknown : s.known.Nodup) {c : Call}
    (hc : c ∈ s.traffic.calls) : (t, c.id, reply) ∉ s.returns := by
  intro hmem
  have hdisjoint := (List.nodup_append.mp (List.nodup_append.mp hknown).2.1).2.2
  exact hdisjoint c.id (List.mem_map_of_mem hc) c.id (List.mem_map.mpr ⟨_, hmem, rfl⟩) rfl

/-! ### The backlog is bounded by the offered work -/

/-- The instant of the last arrival, and the times of all stages, each rounded up to a whole
    millisecond. -/
def deadline (arrivals : List Arrival) : Nat :=
  lastInstant arrivals +
    (arrivals.map fun a => (a.itinerary.holds.map fun d => Clock.ceilTick d.nanos).sum).sum

/-- The deadline leaves time for everything that is offered. -/
theorem offered_le_deadline (arrivals : List Arrival) :
    lastInstant arrivals + offered arrivals ≤ deadline arrivals :=
  Nat.add_le_add_left (List.sum_le_sum fun _ _ =>
    List.sum_le_sum fun d _ => Clock.pause_le_ceilTick d) _

/-- A request has arrived and not returned. -/
structure Unfinished (arrivals : List Arrival) (s : Arrivals) (a : Arrival) : Prop where
  mem : a ∈ arrivals
  arrived : a.instant ≤ s.now
  waits : ∀ t reply, (t, .returns a.id reply) ∉ s.log

/-- The requests are on their way to be finished by the deadline. -/
structure Flows (arrivals : List Arrival) (s : Arrivals) : Prop where
  inTime : ∀ t id reply, (t, .returns id reply) ∈ s.log → t ≤ deadline arrivals
  /-- No deadlock: something may happen, and not after the deadline, until all have returned. -/
  goesOn : (∀ a ∈ arrivals, ∃ t reply, (t, .returns a.id reply) ∈ s.log) ∨
    ∃ s', s.Next s' ∧ s'.now ≤ deadline arrivals
  /-- While time passes, unfinished requests do not all wait: one of them is inside a stage. -/
  inside : ∀ s', s.Next s' → s.now < s'.now → ∀ a, Unfinished arrivals s a →
    ∃ b, Unfinished arrivals s b ∧ ∃ c ∈ s.traffic.calls, c.id = b.id ∧
      ∃ wake, c.wake? = some wake ∧ s'.now ≤ wake

section Settled

variable (hbuild : ResourceModel.build config = .ok m) (hgets : m.Gets arrivals)
  (h : Leads (start m.capacity arrivals) n s)

include hbuild hgets h

/-- A request that has neither returned nor waits at the door is in service, and then some call is
    inside a stage. -/
theorem Leads.exists_unfinished {a : Arrival} (ha : Unfinished arrivals s a)
    (hentered : a ∉ s.pending) : ∃ b, Unfinished arrivals s b ∧ ∃ c ∈ s.traffic.calls,
      c.id = b.id ∧ ∃ wake, c.wake? = some wake := by
  obtain ⟨-, hknown⟩ := h.known_arrivals hgets.distinct
  -- Its id is still known, so it is among the calls in service.
  have hservice : a.id ∈ s.traffic.ids := by
    by_contra hnot
    obtain ⟨u, reply, hmem⟩ := h.returned_of_not hgets.distinct ha.mem hentered hnot
    exact ha.waits u reply (mem_returns.mp hmem)
  have hcalls : s.traffic.calls ≠ [] := by
    intro hnil
    rw [Traffic.ids, hnil] at hservice
    cases hservice
  obtain ⟨c, hc, wake, hwake⟩ := h.exists_inside hbuild hgets hcalls
  obtain ⟨b, hb, hcovers⟩ := (h.punctual hgets.distinct).calls c hc
  refine ⟨b, ⟨hb, hcovers.arrived, fun u reply hmem => ?_⟩, c, hc, hcovers.id, wake, hwake⟩
  rw [← hcovers.id] at hmem
  exact not_returned_of_call hknown hc (mem_returns.mpr hmem)

/-- **Wherever a run leads, it goes on until every request has returned.** -/
theorem Leads.flows (hticks : ∀ a ∈ arrivals, Clock.tick ∣ a.instant) : s.Flows arrivals := by
  have hdeadline := offered_le_deadline arrivals
  obtain ⟨-, hknown⟩ := h.known_arrivals hgets.distinct
  refine ⟨fun t id reply hmem => ?_, ?_, fun s' hnext hlater a ha => ?_⟩
  · obtain ⟨a, -, hsettles⟩ := (h.punctual hgets.distinct).returns t id reply
      (mem_returns.mpr hmem)
    have hnow := h.now_le hbuild hgets hticks
    have hpast := hsettles.past
    omega
  -- Either nobody is left, or there is a next step within the deadline.
  · by_cases hleft : s.pending = [] ∧ s.traffic.calls = []
    · obtain ⟨hpending, hcalls⟩ := hleft
      refine .inl fun a ha => ?_
      obtain ⟨t, reply, hmem⟩ := h.returned_of_not hgets.distinct ha
        (by rw [hpending]; exact List.not_mem_nil)
        (by rw [Traffic.ids, hcalls]; exact List.not_mem_nil)
      exact ⟨t, reply, mem_returns.mp hmem⟩
    · obtain ⟨s', hnext⟩ := h.exists_next hbuild hgets hleft
      have hnow := (h.next hnext).now_le hbuild hgets hticks
      exact .inr ⟨s', hnext, by omega⟩
  · -- when time passes nobody is left at the door, so the request is in service
    cases hnext.changes (nodup_ids_of_known hknown) with
    | @waits t _ hupcoming hs' =>
      subst hs'
      obtain ⟨b, hb, c, hc, hid, wake, hwake⟩ := h.exists_unfinished hbuild hgets ha
        (fun hpending => absurd (hupcoming.arrivals a hpending)
          (Nat.not_le_of_lt (Nat.lt_of_le_of_lt ha.arrived hlater)))
      exact ⟨b, hb, c, hc, hid, wake, hwake, hupcoming.calls c hc wake hwake⟩
    | goes hsame => exact absurd hsame (Nat.ne_of_gt hlater)
    | ends hsame => exact absurd hsame (Nat.ne_of_gt hlater)
    | arrives hsame => exact absurd hsame (Nat.ne_of_gt hlater)
    | turns hsame => exact absurd hsame (Nat.ne_of_gt hlater)

end Settled

/-- A request of a settled run has returned in time, and not earlier than alone. -/
theorem exists_returned (hgets : m.Gets arrivals) (h : Leads (start m.capacity arrivals) n s)
    (hpending : s.pending = []) (hcalls : s.traffic.calls = []) {a : Arrival} (ha : a ∈ arrivals) :
    ∃ t reply, s.returned? a.id = some (t, reply) ∧ a.itinerary.reply = some reply ∧
      Itinerary.finishOf a.instant a.itinerary.holds ≤ t ∧ t ≤ s.now := by
  obtain ⟨t, reply, hmem⟩ := h.returned_of_not hgets.distinct ha
    (by rw [hpending]; exact List.not_mem_nil)
    (by rw [Traffic.ids, hcalls]; exact List.not_mem_nil)
  obtain ⟨u, r, hreturned, hmem⟩ := exists_returned? hmem
  obtain ⟨b, hb, hsettles⟩ := (h.punctual hgets.distinct).returns u a.id r hmem
  obtain rfl : a = b := List.inj_on_of_nodup_map hgets.distinct ha hb hsettles.id
  exact ⟨u, r, hreturned, hsettles.reply, hsettles.finish, hsettles.past⟩

end Arrivals

namespace ResourceModel

variable {config : ResourceConfig} {m : ResourceModel} {arrivals : List Arrival}

/-- **The resource model never deadlocks, and its backlog is bounded by the offered work.** The run
of any requests that arrive at whole milliseconds finishes all of them, the last one no later than
the last arrival and the times of all stages take together. The same holds whatever happens first
of what is due at one instant: only so many steps are possible, and before all requests have
returned there is a next one; and time never passes while all requests wait. -/
theorem never_deadlocks (hbuild : build config = .ok m) (hgets : m.Gets arrivals)
    (hticks : ∀ a ∈ arrivals, Clock.tick ∣ a.instant) :
    (∀ limit, Arrivals.deadline arrivals ≤ limit → ∀ a ∈ arrivals, ∃ t reply,
      (Arrivals.run m.capacity limit arrivals).returned? a.id = some (t, reply) ∧
        a.itinerary.reply = some reply ∧ a.instant ≤ t ∧ t ≤ Arrivals.deadline arrivals) ∧
    ∀ n s, Arrivals.Leads (Arrivals.start m.capacity arrivals) n s →
      n ≤ 2 * Arrivals.movesAhead arrivals + 1 ∧ s.Flows arrivals := by
  have hdeadline := Arrivals.offered_le_deadline arrivals
  refine ⟨fun limit hlimit a ha => ?_, fun n s h => ⟨?_, h.flows hbuild hgets hticks⟩⟩
  -- The run that is carried out ends with everything settled, and each return is that of its
  -- arrival.
  · obtain ⟨n, hn, hpending, hcalls⟩ :=
      Arrivals.settled_run hbuild hgets hticks (Nat.le_trans hdeadline hlimit)
    obtain ⟨t, reply, hreturned, hreply, hfinish, hpast⟩ :=
      Arrivals.exists_returned hgets hn hpending hcalls ha
    have hnow := hn.now_le hbuild hgets hticks
    have hstart := Itinerary.le_finishOf a.instant a.itinerary.holds
    exact ⟨t, reply, hreturned, hreply, by omega, by omega⟩
  · have hstart := Arrivals.known_start m.capacity arrivals
    have hsteps := h.steps_le (hstart.nodup_iff.mpr hgets.distinct)
    rw [Arrivals.moves_start] at hsteps
    omega

/-- The two requests are valid and distinct. -/
theorem gets_twoLookups : Gets ⟨ResourceConfig.standard⟩ twoLookups where
  distinct := by decide
  serves a ha := by
    simp only [twoLookups, List.mem_cons, List.not_mem_nil, or_false] at ha
    rcases ha with rfl | rfl <;> exact ⟨_, 0, by decide, rfl⟩

/-- The two requests arrive at whole milliseconds. -/
theorem ticks_twoLookups : ∀ a ∈ twoLookups, Clock.tick ∣ a.instant := by
  intro a ha
  simp only [twoLookups, List.mem_cons, List.not_mem_nil, or_false] at ha
  rcases ha with rfl | rfl <;> exact Nat.dvd_zero _

/-- Of two look-ups at once the second one waits for the first, and both are finished when the times
of both are over. -/
theorem never_deadlocks_twoLookups :
    Arrivals.deadline twoLookups = 200000000 ∧ ∃ t reply,
      (Arrivals.run (capacity ⟨ResourceConfig.standard⟩) 200000000 twoLookups).returned? 2 =
        some (t, reply) ∧ t ≤ 200000000 := by
  have hdeadline : Arrivals.deadline twoLookups = 200000000 := by decide +kernel
  have hbuild : build ResourceConfig.standard = .ok ⟨ResourceConfig.standard⟩ := rfl
  have hall := (never_deadlocks hbuild gets_twoLookups ticks_twoLookups).1 200000000
    (Nat.le_of_eq hdeadline)
  obtain ⟨t, reply, hreturned, -, -, ht⟩ := hall _ (List.mem_cons_of_mem _ List.mem_cons_self)
  exact ⟨hdeadline, t, reply, hreturned, hdeadline ▸ ht⟩

end ResourceModel

end ClosedLoop
