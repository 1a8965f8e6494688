import ClosedLoop.Command.Options
import ClosedLoop.Decimal.Reading
import ClosedLoop.Setup.ProfileSource

/-!
# The arguments of the program

* `RunOptions`, `Command` — what the user wants done.
* `GlobalOptions` — the options that go with every command.
* `Command.ofArguments` — the arguments of a command.
* `Invocation.ofArguments` — all arguments of the program, with the global options anywhere.
-/

namespace ClosedLoop

open Command (UsageError OptionKind OptionSpec Given Reading)

/-- What a run is to do. -/
structure RunOptions where
  source : ProfileSource
  /-- The endpoint, if it is not that of the scenario. -/
  endpoint : Option EndpointKind
  settings : EndpointSettings
  json : Bool
  /-- The seconds to run; without a positive number the run goes on until it is interrupted. -/
  duration : Float
  /-- The seconds to wait for instances at the end. -/
  grace : Float
  seed : Option UInt64

/-- What the program is to do. -/
inductive Command where
  | run (options : RunOptions)
  | profiles (source : ProfileSource)

/-- Where the profiles of a command come from. -/
def Command.source : Command → ProfileSource
  | .run options => options.source
  | .profiles source => source

/-- The options that go with every command. -/
structure GlobalOptions where
  verbose : Bool
  pretty : Bool
  /-- The file that takes the log instead of the error output. -/
  output : Option String
  /-- The seconds that the program waits for its tasks at the end; none without a positive
  number. -/
  graceful : Float

namespace Command

/-! ### Values -/

/-- A value that must be a double. -/
def doubleFlaw? (text : String) : Option UsageError :=
  if (Decimal.readDouble? text).isSome then none else some .valueValidation

/-- A value that must be a single. -/
def singleFlaw? (text : String) : Option UsageError :=
  if (Decimal.readSingle? text).isSome then none else some .valueValidation

/-- A value that must be a whole number of 64 bits. -/
def wholeFlaw? (text : String) : Option UsageError :=
  if (Decimal.readWhole? UInt64.size text).isSome then none else some .valueValidation

/-- A value that must name a scenario. -/
def scenarioFlaw? (text : String) : Option UsageError :=
  if (Scenario.ofName? text).isSome then none else some .invalidValue

/-- The endpoint with a name. -/
def endpointKind? : String → Option EndpointKind
  | "mock" => some .mock
  | "model" => some .model
  | _ => none

/-- A value that must name an endpoint. -/
def endpointFlaw? (text : String) : Option UsageError :=
  if (endpointKind? text).isSome then none else some .invalidValue

/-- A value that must name a file. -/
def pathFlaw? (text : String) : Option UsageError :=
  if text.isEmpty then some .invalidValue else none

/-! ### Known options -/

/-- An option that takes a value and has no short form. -/
def valued (long : String) (flaw? : String → Option UsageError) : OptionSpec :=
  ⟨long, none, .value flaw?⟩

/-- The option that asks for help. -/
def helpSpec : OptionSpec := ⟨"help", some 'h', .help⟩

/-- The option that asks for the version. -/
def versionSpec : OptionSpec := ⟨"version", some 'V', .version⟩

/-- The options that say where the profiles come from. -/
def sourceSpecs : List OptionSpec :=
  [valued "profiles" pathFlaw?, valued "scenario" scenarioFlaw?,
    valued "section-prefix" (fun _ => none), valued "num-instances" wholeFlaw?,
    valued "think-time" doubleFlaw?, valued "monitor-interval" doubleFlaw?,
    valued "short-circuit-ratio" doubleFlaw?]

/-- The options of a run. -/
def runSpecs : List OptionSpec :=
  sourceSpecs ++
  [valued "endpoint" endpointFlaw?, valued "base-latency" doubleFlaw?,
    valued "jitter" doubleFlaw?, valued "error-rate" singleFlaw?,
    valued "timeout-rate" singleFlaw?, valued "timeout" doubleFlaw?,
    valued "rpc-handlers" wholeFlaw?, valued "datanodes" wholeFlaw?,
    valued "remote-read-bandwidth" doubleFlaw?, ⟨"json", none, .flag⟩,
    valued "duration" doubleFlaw?, valued "shutdown-grace" doubleFlaw?,
    valued "seed" wholeFlaw?]

/-- The options that go with every command. -/
def globalSpecs : List OptionSpec :=
  [⟨"verbose", some 'v', .flag⟩, ⟨"pretty", none, .flag⟩,
    ⟨"output", some 'o', .value pathFlaw?⟩, valued "graceful" doubleFlaw?]

/-- The names of the commands. -/
inductive Name where
  | run
  | profiles
  deriving DecidableEq, Repr

/-- The command with a name. -/
def Name.ofText? : String → Option Name
  | "run" => some .run
  | "profiles" => some .profiles
  | _ => none

/-- The options of a command. -/
def Name.specs : Name → List OptionSpec
  | .run => runSpecs
  | .profiles => sourceSpecs

/-! ### From options to commands -/

/-- A double that was given. -/
def givenDouble (given : Given) (long : String) : Option Float :=
  (given.value? long).bind Decimal.readDouble?

/-- A single that was given. -/
def givenSingle (given : Given) (long : String) : Option Float32 :=
  (given.value? long).bind Decimal.readSingle?

/-- A whole number that was given. -/
def givenWhole (given : Given) (long : String) : Option Nat :=
  (given.value? long).bind (Decimal.readWhole? UInt64.size)

/-- Where the profiles come from. -/
def sourceOf (given : Given) : ProfileSource where
  path := given.value? "profiles"
  scenario := (given.value? "scenario").bind Scenario.ofName?
  fragment := (given.value? "section-prefix").getD defaultSectionFragment
  overrides :=
    { numInstances := (givenWhole given "num-instances").map UInt64.ofNat
      thinkTime := givenDouble given "think-time"
      monitorInterval := givenDouble given "monitor-interval"
      shortCircuitRatio := givenDouble given "short-circuit-ratio" }

/-- The settings of the endpoint. -/
def settingsOf (given : Given) : EndpointSettings where
  baseLatency := givenDouble given "base-latency"
  jitter := givenDouble given "jitter"
  errorRate := givenSingle given "error-rate"
  timeoutRate := givenSingle given "timeout-rate"
  timeout := givenDouble given "timeout"
  rpcHandlers := givenWhole given "rpc-handlers"
  dataNodes := givenWhole given "datanodes"
  remoteReadBandwidth := givenDouble given "remote-read-bandwidth"

/-- What a run is to do: ten seconds, with five seconds of grace, unless the user says otherwise. -/
def runOptionsOf (given : Given) : RunOptions where
  source := sourceOf given
  endpoint := (given.value? "endpoint").bind endpointKind?
  settings := settingsOf given
  json := given.has "json"
  duration := (givenDouble given "duration").getD 10
  grace := (givenDouble given "shutdown-grace").getD 5
  seed := (givenWhole given "seed").map UInt64.ofNat

/-- The command of a name with its options. -/
def ofGiven (name : Name) (given : Given) : Command :=
  match name with
  | .run => .run (runOptionsOf given)
  | .profiles => .profiles (sourceOf given)

/-- What the arguments after the word `help` ask for. -/
def helpRequest : List String → UsageError
  | [] => .displayHelp
  | [topic] =>
    if (Name.ofText? topic).isSome || topic = "help" then .displayHelp else .invalidSubcommand
  | _ => .invalidSubcommand

/-- The error, or the request for help, of a word that stands in the place of a command. -/
def wordError (word : String) (others : List String) : UsageError :=
  if word = "help" then helpRequest others else .invalidSubcommand

/-- The error of a word behind the end of the options, where no command may follow. -/
def lateWordError (word : String) : UsageError :=
  if (Name.ofText? word).isSome || word = "help" then .unknownArgument else .invalidSubcommand

/-- The error of arguments that name no command. -/
def noCommand (before : Reading) : UsageError :=
  match before.settle with
  | .error e => e
  | .ok outer => if outer.given.isEmpty then .missingArguments else .missingSubcommand

/-- Reads all arguments: options, the name of a command, and its options. The options in `shared`
may stand before and after the name. Gives the options before the name, the name and the options
after it. -/
def readArguments (top shared : List OptionSpec) (args : List String) :
    Except UsageError (Given × Name × Given) := do
  let (before, rest) ← readOptions (top ++ shared ++ [helpSpec]) Reading.start args
  match rest with
  | [] | ["--"] => throw (noCommand before)
  | "--" :: word :: _ => throw (lateWordError word)
  | word :: others =>
    match Name.ofText? word with
    | none => throw (wordError word others)
    | some name =>
      let (inner, extra) ← readOptions (name.specs ++ shared ++ [helpSpec]) Reading.start others
      if extra ≠ [] ∧ extra ≠ ["--"] then throw .unknownArgument
      let inner ← inner.settle
      return ((← before.settle).given, name, inner.given)

/-- The arguments of a command, without global options. -/
def ofArguments (args : List String) : Except UsageError Command := do
  let (_, name, given) ← readArguments [] [] args
  return ofGiven name given

end Command

/-- A command with the global options. -/
structure Invocation where
  options : GlobalOptions
  command : Command

namespace Invocation

/-- All arguments of the program. A global option after the name of the command wins over one
before it. -/
def ofArguments (args : List String) : Except UsageError Invocation := do
  let (outer, name, inner) ← Command.readArguments [Command.versionSpec] Command.globalSpecs args
  let given : Given := inner ++ outer
  return {
    options := {
      verbose := given.has "verbose"
      pretty := given.has "pretty"
      output := given.value? "output"
      graceful := (Command.givenDouble given "graceful").getD 0 }
    command := Command.ofGiven name inner }

end Invocation

end ClosedLoop
