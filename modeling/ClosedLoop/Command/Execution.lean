import ClosedLoop.Command.Arguments
import ClosedLoop.Engine.Simulation
import ClosedLoop.Report.Lines

/-!
# Carrying out commands

* `Ending`, `Execution` — how a command ends, what it printed and what it warned of.
* `ProfileSource.print` — the command that prints the resolved profiles.
* `RunOptions.ready` — a run with its profiles and its endpoint, before anything has happened.
* `RunOptions.execute` — the command that runs the workload.
* `Command.execute` — either of them.
-/

namespace ClosedLoop

/-- Why a command fails. -/
inductive CommandError where
  | load (cause : LoadError)
  | engine (cause : ConfigError)
  | mock (cause : SetupError)
  | model (cause : SetupError)

/-- The wording of a failure. -/
def CommandError.message : CommandError → String
  | .load cause => cause.message
  | .engine cause => withCause "create engine" cause.message
  | .mock cause => withCause "create mock endpoint" cause.message
  | .model cause => withCause "create resource model endpoint" cause.message

/-- How a command ends. -/
inductive Ending where
  /-- It did what it was asked to. -/
  | completed
  | failed (cause : CommandError)
  | crashed (fault : Fault)
  /-- It is not over: no end was set, or more happens until then than a simulation waits for. -/
  | endless

/-- A command that was carried out. -/
structure Execution where
  ending : Ending
  output : List String
  warnings : List String
  /-- The report of a run that was carried through. -/
  report : Option RunReport

namespace Execution

/-- A command that printed nothing. -/
def silent (ending : Ending) (warnings : List String) : Execution := ⟨ending, [], warnings, none⟩

end Execution

/-- The command that prints the resolved profiles. -/
def ProfileSource.print (s : ProfileSource) (read : String → Except FileError String) : Execution :=
  match s.load read with
  | (.error e, warnings) => .silent (.failed (.load e)) warnings
  | (.ok profiles, warnings) =>
    ⟨.completed, [Json.pretty (.array (profiles.map Profile.toJson))], warnings, none⟩

/-- A run with its profiles and its endpoint, before anything has happened. -/
structure ReadyRun where
  behaviour : Behaviour
  simulation : Simulation behaviour
  /-- How long the run lasts, if it does not go on until it is interrupted. -/
  time : Option Span
  warnings : List String

/-- The instant at which a run ends by itself, if there is one. -/
def ReadyRun.last? (r : ReadyRun) : Option Nat := r.time.map (Clock.wake 0)

namespace RunOptions

/-- What a run logs if failure settings are given for a resource model. -/
def ignoredWarning : String :=
  "model endpoint injects no failures: settings ignored, use --endpoint mock"

/-- The settings of the endpoint: those given on top of those of the scenario. -/
def endpointSettings (o : RunOptions) : EndpointSettings :=
  (EndpointSettings.merge o.source.scenarioOrStandard.endpointSettings o.settings).1

/-- The endpoint that is used. -/
def endpointKind (o : RunOptions) : EndpointKind :=
  o.endpoint.getD o.source.scenarioOrStandard.endpointKind

/-- What the choice of the endpoint logs. -/
def endpointWarnings (o : RunOptions) : List String :=
  if o.endpointKind = .model ∧ o.endpointSettings.ignoredFailures ≠ [] then [ignoredWarning]
  else []

/-- The format of the report. -/
def format (o : RunOptions) : ReportFormat := if o.json then .jsonLines else .human

/-- The endpoint, drawing what it draws from a seed, or how the command ends without it. -/
def behaviour (o : RunOptions) (entropy : UInt64) : Except Ending Behaviour :=
  match o.endpointKind with
  | .mock =>
    match MockEndpoint.build o.endpointSettings.mockConfig with
    | .ok e => .ok (e.behaviour entropy)
    | .error e => .error (.failed (.mock e))
  | .model =>
    match ResourceModel.build o.endpointSettings.resourceConfig with
    | .ok m => .ok (m.behaviour entropy)
    | .error (.refused e) => .error (.failed (.model e))
    | .error (.noRoom fault) => .error (.crashed fault)

/-- How long the run lasts, if it does not go on until it is interrupted. -/
def runTime (o : RunOptions) : Except Fault (Option Span) :=
  if 0 < o.duration then (Span.ofSecondsOrFault o.duration).map some else .ok none

/-- A set of profiles against the endpoint. A run whose waiting times are no spans, whose profiles
do not fit together or whose endpoint cannot be built ends before it starts. -/
def readyWith (o : RunOptions) (profiles : List Profile) (entropy : UInt64)
    (warnings : List String) : Except Execution ReadyRun :=
  match Span.ofSecondsOrFault (atLeastZero o.grace) with
  | .error fault => .error (.silent (.crashed fault) warnings)
  | .ok grace =>
    match Engine.create profiles { EngineConfig.standard (o.seed.getD entropy) with grace } with
    | .error e => .error (.silent (.failed (.engine e)) warnings)
    | .ok (plan, created) =>
      let warnings := warnings ++ created
      match o.behaviour entropy with
      | .error ending => .error (.silent ending warnings)
      | .ok behaviour =>
        match o.runTime with
        | .error fault => .error (.silent (.crashed fault) warnings)
        | .ok time =>
          .ok {
            behaviour, time
            simulation := Simulation.start behaviour plan.config plan.profiles
            warnings := warnings ++ Engine.monitorWarnings plan.profiles }

/-- The run that the user asks for, or how the command ends before there is one. What the user
leaves to chance is drawn from `entropy`. -/
def ready (o : RunOptions) (read : String → Except FileError String) (entropy : UInt64) :
    Except Execution ReadyRun :=
  match o.source.load read with
  | (.error e, warnings) => .error (.silent (.failed (.load e)) warnings)
  | (.ok profiles, warnings) => o.readyWith profiles entropy (warnings ++ o.endpointWarnings)

/-- The printed lines of a run, up to the first that cannot be printed. -/
def outputOf (o : RunOptions) (e : Engine) : List String :=
  match o.format.lines e.board e.report? with
  | .ok lines => lines
  | .error _ => []

/-- Carries a run out and ends it: at the end of its time or at the interruption, whichever comes
first. A run with neither is endless, and so is one in which more happens than
`Simulation.patience` allows, such as that of an instance that takes no time for a round. -/
def carryOut (o : RunOptions) (r : ReadyRun) (interrupt : Option Nat) : Execution :=
  let last := Traffic.earlier? r.last? interrupt
  match last.bind fun t => (r.simulation.sleepUntil? t).bind Simulation.stop? with
  | none => .silent .endless r.warnings
  | some s =>
    match s.engine.status with
    | .failed fault => ⟨.crashed fault, o.outputOf s.engine, r.warnings, none⟩
    | _ => ⟨.completed, o.outputOf s.engine, r.warnings, s.engine.report?⟩

/-- The command that runs the workload. `interrupt` is the instant at which the user ends the run,
if he does. -/
def execute (o : RunOptions) (read : String → Except FileError String) (entropy : UInt64)
    (interrupt : Option Nat) : Execution :=
  match o.ready read entropy with
  | .error ended => ended
  | .ok r => o.carryOut r interrupt

end RunOptions

/-- Carries out a command. -/
def Command.execute (c : Command) (read : String → Except FileError String) (entropy : UInt64)
    (interrupt : Option Nat) : Execution :=
  match c with
  | .run options => options.execute read entropy interrupt
  | .profiles source => source.print read

end ClosedLoop
