import ClosedLoop.Profile.Basic

/-!
# Validation of profiles

A profile is checked once, when it is loaded. The checks run in a fixed order and the first that
fails gives the error.

* `Profile.flaw?` — the first field of a profile that has a flaw.
* `Profile.validate` — the same as an error.
* `validateAll` — a set of profiles: each on its own, then its id against those before it.
-/

namespace ClosedLoop

/-- Is this a number from zero to one? -/
def isRatio (x : Float) : Bool := 0 ≤ x && x ≤ 1

/-- A mean must be finite and not negative. -/
def meanFlaw? (x : Float) : Option Flaw :=
  if !x.isFinite then some (.notFinite x)
  else if x < 0 then some (.negative x)
  else none

/-- A share must lie between zero and one. -/
def ratioFlaw? (x : Float) : Option Flaw :=
  if isRatio x then none else some (.notRatio x)

/-- A time must fit a span. -/
def spanFlaw? (x : Float) : Option Flaw :=
  match Span.ofSeconds? x with
  | .ok _ => none
  | .error _ => some (.noSpan x)

/-- A period must fit a span and must not be zero. -/
def periodFlaw? (x : Float) : Option Flaw :=
  match Span.ofSeconds? x with
  | .ok period => if period.isZero then some (.noPeriod x) else none
  | .error _ => some (.noPeriod x)

/-- The spread of a uniform distribution must lie between zero and one. -/
def Distribution.flaw? : Distribution → Option Flaw
  | .uniform spread => if isRatio spread then none else some (.notSpread spread)
  | _ => none

namespace Profile

/-- The means of a profile, in the order in which they are checked. -/
def means (p : Profile) : List (Field × Float) :=
  [(.rpcSize, p.rpcSize), (.replySize, p.replySize), (.rpcTime, p.rpcTime),
    (.memUpdateSize, p.memUpdateSize), (.logAppendSize, p.logAppendSize),
    (.lookupTime, p.lookupTime), (.readSize, p.readSize), (.thinkTime, p.thinkTime)]

/-- The times among the means, in the order in which they are checked. -/
def times (p : Profile) : List (Field × Float) :=
  [(.rpcTime, p.rpcTime), (.lookupTime, p.lookupTime), (.thinkTime, p.thinkTime)]

/-- Every check of a profile with its field, in order. -/
def checks (p : Profile) : List (Field × Option Flaw) :=
  [(.numInstances, if p.instances = 0 then some .noInstance else none)] ++
  (p.means.map fun (field, x) => (field, meanFlaw? x)) ++
  [(.shortCircuitRatio, ratioFlaw? p.shortCircuitRatio)] ++
  (p.times.map fun (field, x) => (field, spanFlaw? x)) ++
  [(.monitorInterval, periodFlaw? p.monitorInterval), (.distribution, p.distribution.flaw?)]

/-- The first field that has a flaw. -/
def flaw? (p : Profile) : Option (Field × Flaw) :=
  p.checks.findSome? fun (field, flaw) => flaw.map (field, ·)

/-- Checks every constraint of a profile. -/
def validate (p : Profile) : Except ConfigError Unit :=
  match p.flaw? with
  | none => .ok ()
  | some (field, flaw) => .error (.invalidProfile p.id field flaw)

end Profile

/-- Checks profiles against the ids already seen. -/
def validateAfter (seen : List ClientId) : List Profile → Except ConfigError Unit
  | [] => .ok ()
  | p :: rest =>
    match p.validate with
    | .error e => .error e
    | .ok () =>
      if seen.contains p.id then .error (.duplicateClient p.id)
      else validateAfter (p.id :: seen) rest

/-- Checks a set of profiles: every profile on its own, and that no id occurs twice. -/
def validateAll (profiles : List Profile) : Except ConfigError Unit :=
  validateAfter [] profiles

end ClosedLoop
