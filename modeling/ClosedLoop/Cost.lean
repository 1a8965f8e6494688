import ClosedLoop.Profile.Basic
import ClosedLoop.Words

/-!
# The cost of one request

* `Cost` — what one request takes from the system, in megabytes and seconds.
* `Distribution.sample` — one cost with a given mean; a word is drawn only for a positive mean of
  a distribution that scatters.
* `Profile.drawCost` — the cost of the next request of a profile, drawn in a fixed order.
-/

namespace ClosedLoop

/-- What one request takes from the system. -/
structure Cost where
  cpuTime : Float
  memWrite : Float
  logWrite : Float
  lookupTime : Float
  localRead : Float
  remoteRead : Float
  request : Float
  response : Float

namespace Cost

/-- No cost at all. -/
def none : Cost := ⟨0, 0, 0, 0, 0, 0, 0, 0⟩

/-- The data read, locally and remotely. -/
def read (c : Cost) : Float := c.localRead + c.remoteRead

/-- The data moved over the connection of the client. -/
def transfer (c : Cost) : Float := c.request + c.response

/-- The components in order. -/
def components (c : Cost) : List Float :=
  [c.cpuTime, c.memWrite, c.logWrite, c.lookupTime, c.localRead, c.remoteRead, c.request,
    c.response]

/-- Are all components zero, of either sign? -/
def isZero (c : Cost) : Bool := c.components.all (· == 0)

end Cost

/-! ### Sampling -/

/-- The larger of a number and zero; zero for what is not a number. -/
def atLeastZero (x : Float) : Float := if 0 < x then x else 0

/-- The logarithm of a number from above zero to one. It is documented that this is never positive,
but what doubles have for a logarithm is given by the platform and cannot be looked into here. The
check does nothing where the documentation is right, and keeps what is proved of costs from resting
on it. -/
def logOfShare (x : Float) : Float :=
  let l := Float.log x
  if l ≤ 0 then l else 0

namespace Distribution

/-- Does a draw take a word? -/
def scatters : Distribution → Bool
  | constant => false
  | uniform _ => true
  | exponential => true

/-- The cost with a positive mean that the number `u` from zero to below one selects. -/
def valueAt (d : Distribution) (mean u : Float) : Float :=
  match d with
  | constant => mean
  | uniform spread => atLeastZero (mean * (1 + spread * (2 * u - 1)))
  | exponential => -mean * logOfShare (1 - u)

variable {σ : Type} [WordSource σ]

/-- One cost with a given mean; nothing is drawn if the mean is not positive or nothing scatters. -/
def sample (d : Distribution) (mean : Float) : StateM σ Float :=
  if mean ≤ 0 then pure 0
  else if d.scatters then do return d.valueAt mean (← drawUnit)
  else pure (d.valueAt mean 0)

end Distribution

/-- The cost of the next request. The data read come first; the rest follow in the order of the
components, without a draw for the two parts of the data read. -/
def Profile.drawCost {σ : Type} [WordSource σ] (p : Profile) : StateM σ Cost := do
  let d := p.distribution
  let read ← d.sample p.readSize
  let localRead := read * p.shortCircuitRatio
  let cpuTime ← d.sample p.rpcTime
  let memWrite ← d.sample p.memUpdateSize
  let logWrite ← d.sample p.logAppendSize
  let lookupTime ← d.sample p.lookupTime
  let remoteRead := atLeastZero (read - localRead)
  let request ← d.sample p.rpcSize
  let response ← d.sample p.replySize
  return { cpuTime, memWrite, logWrite, lookupTime, localRead, remoteRead, request, response }

end ClosedLoop
