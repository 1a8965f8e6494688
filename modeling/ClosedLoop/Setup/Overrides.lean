import ClosedLoop.Profile.Basic
import ClosedLoop.Setup.LogEntry

/-!
# Overrides of client profiles

* `Overrides.apply` — a profile with the given values in place of its own.
* `Overrides.log` — one log entry per given value.
-/

namespace ClosedLoop

/-- Values that replace those of every loaded profile, as far as they are given. -/
structure Overrides where
  numInstances : Option UInt64
  thinkTime : Option Float
  monitorInterval : Option Float
  shortCircuitRatio : Option Float

namespace Overrides

/-- Nothing given. -/
def none : Overrides := ⟨Option.none, Option.none, Option.none, Option.none⟩

/-- A profile with the given values in place of its own. -/
def apply (o : Overrides) (p : Profile) : Profile :=
  { p with
    instances := o.numInstances.getD p.instances
    thinkTime := o.thinkTime.getD p.thinkTime
    monitorInterval := o.monitorInterval.getD p.monitorInterval
    shortCircuitRatio := o.shortCircuitRatio.getD p.shortCircuitRatio }

/-- The entry for a given value. -/
def entry {α : Type} (field : Field) (text : α → String) (value : Option α) : List LogEntry :=
  value.toList.map fun v => ⟨.info, s!"property '{field.name}': use overwrite: {text v}"⟩

/-- One log entry per given value. -/
def log (o : Overrides) : List LogEntry :=
  entry .numInstances (fun n => toString n.toNat) o.numInstances ++
  entry .thinkTime Decimal.plain o.thinkTime ++
  entry .monitorInterval Decimal.plain o.monitorInterval ++
  entry .shortCircuitRatio Decimal.plain o.shortCircuitRatio

end Overrides

end ClosedLoop
