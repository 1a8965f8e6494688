import ClosedLoop.Clock
import ClosedLoop.Endpoint.Reply

/-!
# Itineraries of calls

A call passes through stages one after the other. A stage takes up time, piece by piece, and may
need a place in a pool for as long as it lasts.

* `Pool`, `Stage`, `Itinerary` — what a call goes through and what it returns in the end.
* `Itinerary.serviceTime` — the time of all stages without any waiting.
* `Itinerary.finishAlone` — when the call returns if no other call is in its way.
-/

namespace ClosedLoop

/-- Places that calls compete for. -/
inductive Pool where
  /-- The lock of the namespace. -/
  | namespaceLock
  /-- The handlers of requests. -/
  | handlers
  /-- The connections of a data node. -/
  | xceivers (dataNode : Nat)
  deriving DecidableEq, Repr

/-- One stage: the pool that it needs a place in, if any, and the times it takes in order. -/
structure Stage where
  pool : Option Pool
  holds : List Span

/-- The stages of a call in order, and what it returns after them; without a reply it never
returns. -/
structure Itinerary where
  stages : List Stage
  reply : Option Reply

namespace Itinerary

/-- The times of all stages in order. -/
def holds (i : Itinerary) : List Span := i.stages.flatMap (·.holds)

/-- The time of all stages without any waiting, at most the longest span. -/
def serviceTime (i : Itinerary) : Span := i.holds.foldl Span.addSaturating Span.zero

/-- When times that follow each other from `now` on are over. -/
def finishOf (now : Nat) : List Span → Nat
  | [] => now
  | d :: rest => finishOf (Clock.wake now d) rest

/-- When the call returns if it starts now and no other call is in its way. -/
def finishAlone (now : Nat) (i : Itinerary) : Option Nat :=
  i.reply.map fun _ => finishOf now i.holds

/-- An upper bound on the number of changes of place until the call returns. -/
def transitions (i : Itinerary) : Nat :=
  i.stages.foldr (fun s n => s.holds.length + 1 + n) 1

end Itinerary

end ClosedLoop
