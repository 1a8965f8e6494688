import ClosedLoop.Engine.Instance
import ClosedLoop.Service.Traffic

namespace ClosedLoop

/-!
# The gist of replies

How a reply is counted is all that the engine takes notice of. Its gist is a plain reply that is
counted alike. The traffic of an endpoint carries replies without looking at them, so that its moves
are the same for the replies and for their gist.

* `Reply.gist`, `Reply.gist_eq_iff` — replies have the same gist if they are counted alike;
* `Traffic.gist` — calls in service with nothing but the gist of what they return;
* `Traffic.submit_gist`, `Traffic.expire_gist` — every move goes the same way.
-/

/-- A plain reply that is counted in the same way: without a service time, a message or a flag. -/
def Reply.gist : Reply → Reply
  | .ok _ => .ok ⟨none⟩
  | .error e => .error ⟨e.kind, "", false⟩

@[simp] theorem Reply.outcome_gist (r : Reply) : r.gist.outcome = r.outcome := by
  cases r <;> rfl

/-- Replies have the same gist if they are counted alike. -/
theorem Reply.gist_eq_iff {r q : Reply} : r.gist = q.gist ↔ r.outcome = q.outcome := by
  constructor
  · intro h
    rw [← r.outcome_gist, h, q.outcome_gist]
  · intro h
    rcases r with ⟨kind, message, retryable⟩ | r <;> rcases q with ⟨kind', message', retryable'⟩ | q
    · cases kind <;> cases kind' <;> first | rfl | cases h
    · cases kind <;> cases h
    · cases kind' <;> cases h
    · rfl

/-- The itinerary with the gist of its reply. -/
def Itinerary.gist (i : Itinerary) : Itinerary := { i with reply := i.reply.map Reply.gist }

/-- The passage with the gist of its reply. -/
def Passage.gist : Passage → Passage
  | .returns call reply => .returns call reply.gist
  | passage => passage

/-- The call with the gist of its reply. -/
def Call.gist (c : Call) : Call := { c with reply := c.reply.map Reply.gist }

namespace Traffic

/-- The traffic with the gist of all replies. -/
def gist (t : Traffic) : Traffic := { t with calls := t.calls.map Call.gist }

/-- A move with the gist of all replies. -/
def gistOf (move : Traffic × List Passage) : Traffic × List Passage :=
  (move.1.gist, move.2.map Passage.gist)

@[simp] theorem gist_idle (capacity : Pool → Nat) : (idle capacity).gist = idle capacity := rfl

variable (t : Traffic) (now : Nat)

@[simp] theorem inUse_gist (pool : Pool) : t.gist.inUse pool = t.inUse pool :=
  List.countP_map

@[simp] theorem append_gist (c : Call) : t.gist.append c.gist = (t.append c).gist := by
  simp only [append, gist, List.map_append, List.map_cons, List.map_nil]

@[simp] theorem without_gist (id : Nat) : t.gist.without id = (t.without id).gist :=
  congrArg (Traffic.mk t.capacity) List.eraseP_map

/-- The first call whose timer has fired is the same. -/
theorem due?_gist : t.gist.due? now = (t.due? now).map Call.gist :=
  List.find?_map

/-- The next timer is the same. -/
theorem nextWake?_gist : t.gist.nextWake? = t.nextWake? :=
  List.foldl_map

/-- A call goes to its next stage in the same way. -/
theorem place_gist (id : Nat) (reply : Option Reply) (stages : List Stage) :
    t.gist.place now id (reply.map Reply.gist) stages = gistOf (t.place now id reply stages) := by
  cases stages with
  | nil =>
    -- A call without an answer stays. With one it returns, and the gist keeps the kind of answer.
    cases reply with
    | none => exact congrArg (·, []) (t.append_gist ⟨id, .unanswered, [], none⟩)
    | some r => rfl
  | cons s later =>
    simp only [place]
    cases s.pool with
    | none => exact congrArg (·, _) (t.append_gist ⟨id, _, later, reply⟩)
    | some pool =>
      have hcapacity : t.gist.capacity pool = t.capacity pool := rfl
      simp only [inUse_gist, hcapacity]
      -- Whether there is room is the same for both.
      split
      · exact congrArg (·, _) (t.append_gist ⟨id, _, later, reply⟩)
      · exact congrArg (·, _) (t.append_gist ⟨id, _, later, reply⟩)

/-- A call sets out in the same way. -/
theorem submit_gist (id : Nat) (i : Itinerary) :
    t.gist.submit now id i.gist = gistOf (t.submit now id i) :=
  t.place_gist now id i.reply i.stages

/-- A free place goes to the same call. -/
theorem grant_gist (pool : Pool) : t.gist.grant now pool = gistOf (t.grant now pool) := by
  have hfind : t.gist.calls.find? (·.waitsFor pool) =
      (t.calls.find? (·.waitsFor pool)).map Call.gist := List.find?_map
  unfold grant
  rw [hfind]
  cases t.calls.find? (·.waitsFor pool) with
  | none => rfl
  | some c =>
    obtain ⟨id, position, later, reply⟩ := c
    cases position with
    | queued p holds =>
      refine congrArg (·, [Passage.enters id (some pool)]) ?_
      show (t.gist.without id).append _ = _
      rw [without_gist]
      exact (t.without id).append_gist ⟨id, .enter now (some pool) holds, later, reply⟩
    | timed | unanswered => rfl

/-- A released place goes to the same call. -/
theorem release_gist (pool : Option Pool) :
    t.gist.release now pool = gistOf (t.release now pool) := by
  cases pool with
  | none => rfl
  | some pool => exact t.grant_gist now pool

/-- A call whose timer has fired moves on in the same way. -/
theorem expire_gist (c : Call) : t.gist.expire now c.gist = gistOf (t.expire now c) := by
  obtain ⟨id, position, later, reply⟩ := c
  -- The stages do not see the answer, which is passed on to the end.
  cases position with
  | queued | unanswered => rfl
  | timed pool wake holds =>
    cases holds with
    | cons d rest =>
      refine congrArg (·, []) ?_
      show (t.gist.without id).append _ = _
      rw [without_gist]
      exact (t.without id).append_gist ⟨id, .timed pool (Clock.wake now d) rest, later, reply⟩
    | nil =>
      simp only [expire, Call.gist, without_gist, release_gist, gistOf, place_gist, List.map_cons,
        List.map_append]
      rfl

end Traffic

end ClosedLoop
