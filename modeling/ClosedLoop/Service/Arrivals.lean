import ClosedLoop.Service.Traffic

/-!
# Calls that arrive at given instants

An endpoint alone: calls arrive at instants that are fixed beforehand and pass through its stages.

* `Arrival` — a call with the instant of its arrival.
* `Arrivals.step?` — the next thing that happens: a call moves, a call arrives, or time passes.
* `Arrivals.run` — everything that happens up to a limit.
-/

namespace ClosedLoop

/-- A call with the instant of its arrival. -/
structure Arrival where
  instant : Nat
  id : Nat
  itinerary : Itinerary

/-- An endpoint with calls that are still to arrive, the next one first. -/
structure Arrivals where
  now : Nat
  pending : List Arrival
  traffic : Traffic
  /-- What happened so far, latest first. -/
  log : List (Nat × Passage)

namespace Arrivals

/-- Before the first arrival. Calls that arrive together keep their order. -/
def start (capacity : Pool → Nat) (arrivals : List Arrival) : Arrivals where
  now := 0
  pending := arrivals.mergeSort fun a b => a.instant ≤ b.instant
  traffic := Traffic.idle capacity
  log := []

/-- The state after a move. -/
def moved (s : Arrivals) (move : Traffic × List Passage) : Arrivals :=
  { s with traffic := move.1, log := (move.2.map fun p => (s.now, p)).reverse ++ s.log }

/-- The instant of the next arrival. -/
def nextArrival? (s : Arrivals) : Option Nat := s.pending.head?.map (·.instant)

/-- The next thing that happens up to a limit: calls move first, then calls arrive, and only if
there is neither does time pass, to the next timer or arrival. -/
def step? (s : Arrivals) (limit : Nat) : Option Arrivals :=
  match s.traffic.due? s.now, s.pending with
  | some c, _ => some (s.moved (s.traffic.expire s.now c))
  | none, pending =>
    let advance : Option Arrivals :=
      match Traffic.earlier? s.traffic.nextWake? s.nextArrival? with
      | some t => if t ≤ limit then some { s with now := max s.now t } else none
      | none => none
    match pending with
    | a :: rest =>
      if a.instant ≤ s.now then
        some ({ s with pending := rest }.moved (s.traffic.submit s.now a.id a.itinerary))
      else advance
    | [] => advance

/-- The state after at most `fuel` things happened. -/
def runWithin (limit : Nat) : Nat → Arrivals → Arrivals
  | 0, s => s
  | fuel + 1, s =>
    match s.step? limit with
    | some next => runWithin limit fuel next
    | none => s

/-- Twice as many things as there are moves can happen, because time passes at most once before
each of them. -/
def run (capacity : Pool → Nat) (limit : Nat) (arrivals : List Arrival) : Arrivals :=
  let moves := arrivals.foldr (fun a n => a.itinerary.transitions + 1 + n) 0
  runWithin limit (2 * moves + 1) (start capacity arrivals)

/-- When and with what a call returned. -/
def returned? (s : Arrivals) (id : Nat) : Option (Nat × Reply) :=
  s.log.findSome? fun (t, p) =>
    match p with
    | .returns call reply => if call = id then some (t, reply) else none
    | _ => none

end Arrivals

end ClosedLoop
