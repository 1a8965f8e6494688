import ClosedLoop.Endpoint.Mock
import ClosedLoop.Endpoint.ResourceModel
import ClosedLoop.Endpoint.Script

/-!
# Behaviours of endpoints

All that a run needs to know of an endpoint: the places of its pools and the itinerary of every
call, which may depend on the calls before it.

* `Behaviour` — any endpoint.
* `MockEndpoint.behaviour`, `ResourceModel.behaviour`, `Script.behaviour` — the endpoints at hand.
-/

namespace ClosedLoop

/-- An endpoint: a state that each call may change, and the itinerary of each call. -/
structure Behaviour where
  State : Type
  start : State
  capacity : Pool → Nat
  answer : ClientId → Cost → StateM State Itinerary

/-- A mock endpoint that draws its words from a seed. -/
def MockEndpoint.behaviour (e : MockEndpoint) (seed : UInt64) : Behaviour where
  State := Xoshiro
  start := Xoshiro.ofSeed seed
  capacity := fun _ => 0
  answer := fun _ _ => e.answer

/-- A resource model that draws data nodes from a seed. -/
def ResourceModel.behaviour (m : ResourceModel) (seed : UInt64) : Behaviour where
  State := Xoshiro
  start := Xoshiro.ofSeed seed
  capacity := m.capacity
  answer := fun _ c => m.answer c

/-- A scripted endpoint. -/
def Script.behaviour (steps : List ScriptStep) : Behaviour where
  State := Script
  start := Script.ofSteps steps
  capacity := fun _ => 0
  answer := fun client _ => Script.answer client

end ClosedLoop
