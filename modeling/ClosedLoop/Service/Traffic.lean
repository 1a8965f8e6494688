import ClosedLoop.Service.Itinerary

/-!
# Calls in service

The traffic of an endpoint is the list of the calls that have not returned, in the order in which
they took up their present position. A call waits for a place in a pool, or is inside a stage until
a timer fires, or has passed all stages and never returns.

* `Traffic.submit` — a new call sets out on its itinerary.
* `Traffic.due?`, `Traffic.expire` — the first call whose timer has fired, and its next move. A
  place that becomes free goes at once to the call that waits for it longest.
* `Traffic.nextWake?` — when the next timer fires.
* `Passage` — what a move shows.
-/

namespace ClosedLoop

/-- Where a call is. -/
inductive Position where
  /-- Waiting for a place in a pool, for a stage that takes these times. -/
  | queued (pool : Pool) (holds : List Span)
  /-- Inside a stage until a timer fires; the times after that remain. -/
  | timed (pool : Option Pool) (wake : Nat) (holds : List Span)
  /-- Past all stages, without a reply to return. -/
  | unanswered

/-- A call that has not returned. -/
structure Call where
  id : Nat
  position : Position
  /-- The stages that follow the present one. -/
  later : List Stage
  reply : Option Reply

/-- What a move of a call shows. -/
inductive Passage where
  /-- The call begins to wait for a place in a pool. -/
  | waits (call : Nat) (pool : Pool)
  /-- The call enters a stage. -/
  | enters (call : Nat) (pool : Option Pool)
  /-- The call leaves a stage. -/
  | leaves (call : Nat) (pool : Option Pool)
  /-- The call returns. -/
  | returns (call : Nat) (reply : Reply)

namespace Call

/-- Is the call inside a stage that needs a place in the pool? -/
def occupies (c : Call) (pool : Pool) : Bool :=
  match c.position with
  | .timed (some p) _ _ => p = pool
  | _ => false

/-- Does the call wait for a place in the pool? -/
def waitsFor (c : Call) (pool : Pool) : Bool :=
  match c.position with
  | .queued p _ => p = pool
  | _ => false

/-- When the timer of the call fires. -/
def wake? (c : Call) : Option Nat :=
  match c.position with
  | .timed _ wake _ => some wake
  | _ => none

/-- Has the timer of the call fired? -/
def isDue (c : Call) (now : Nat) : Bool :=
  match c.wake? with
  | some t => t ≤ now
  | none => false

end Call

/-- The position inside a stage that is entered now. A stage that takes no time is over at once. -/
def Position.enter (now : Nat) (pool : Option Pool) : List Span → Position
  | [] => .timed pool now []
  | d :: rest => .timed pool (Clock.wake now d) rest

/-- The calls that have not returned, in the order in which they took up their position. -/
structure Traffic where
  capacity : Pool → Nat
  calls : List Call

namespace Traffic

/-- No calls. -/
def idle (capacity : Pool → Nat) : Traffic := ⟨capacity, []⟩

/-- How many places of a pool are taken. -/
def inUse (t : Traffic) (pool : Pool) : Nat := t.calls.countP (·.occupies pool)

/-- The traffic with a call in the last place. -/
def append (t : Traffic) (c : Call) : Traffic := { t with calls := t.calls ++ [c] }

/-- The traffic without a call. -/
def without (t : Traffic) (id : Nat) : Traffic :=
  { t with calls := t.calls.eraseP (·.id = id) }

/-- Sends a call to the next of its stages: inside if there is room, else into the queue; without
another stage it returns, or stays for ever if it has no reply. -/
def place (t : Traffic) (now id : Nat) (reply : Option Reply) : List Stage → Traffic × List Passage
  | [] =>
    match reply with
    | some r => (t, [.returns id r])
    | none => (t.append ⟨id, .unanswered, [], none⟩, [])
  | s :: later =>
    match s.pool with
    | none => (t.append ⟨id, .enter now none s.holds, later, reply⟩, [.enters id none])
    | some pool =>
      if t.inUse pool < t.capacity pool then
        (t.append ⟨id, .enter now (some pool) s.holds, later, reply⟩, [.enters id (some pool)])
      else (t.append ⟨id, .queued pool s.holds, later, reply⟩, [.waits id pool])

/-- A new call sets out. -/
def submit (t : Traffic) (now id : Nat) (i : Itinerary) : Traffic × List Passage :=
  t.place now id i.reply i.stages

/-- Gives a free place of a pool to the call that waits for it longest. -/
def grant (t : Traffic) (now : Nat) (pool : Pool) : Traffic × List Passage :=
  match t.calls.find? (·.waitsFor pool) with
  | some c =>
    match c.position with
    | .queued _ holds =>
      ((t.without c.id).append { c with position := .enter now (some pool) holds },
        [.enters c.id (some pool)])
    | _ => (t, [])
  | none => (t, [])

/-- Frees the place of a stage, if it had one. -/
def release (t : Traffic) (now : Nat) : Option Pool → Traffic × List Passage
  | none => (t, [])
  | some pool => t.grant now pool

/-- The first call whose timer has fired. -/
def due? (t : Traffic) (now : Nat) : Option Call := t.calls.find? (·.isDue now)

/-- The next move of a call whose timer has fired: the next time of its stage, or the end of the
stage and what follows it. -/
def expire (t : Traffic) (now : Nat) (c : Call) : Traffic × List Passage :=
  match c.position with
  | .timed pool _ (d :: rest) =>
    ((t.without c.id).append { c with position := .timed pool (Clock.wake now d) rest }, [])
  | .timed pool _ [] =>
    let (freed, granted) := (t.without c.id).release now pool
    let (placed, passages) := freed.place now c.id c.reply c.later
    (placed, .leaves c.id pool :: (granted ++ passages))
  | _ => (t, [])

/-- The earlier of two instants, either of which may be missing. -/
def earlier? : Option Nat → Option Nat → Option Nat
  | some a, some b => some (min a b)
  | some a, none => some a
  | none, b => b

/-- When the next timer fires. -/
def nextWake? (t : Traffic) : Option Nat :=
  t.calls.foldl (fun best c => earlier? best c.wake?) none

end Traffic

end ClosedLoop
