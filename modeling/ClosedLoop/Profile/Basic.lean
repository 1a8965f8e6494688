import ClosedLoop.Json.Decode
import ClosedLoop.Json.Text
import ClosedLoop.Span

/-!
# Client profiles

A profile describes one class of clients: how many instances run, what one request costs on average
and how the single costs scatter around the average.

* `Profile` — the profile, `Profile.blank` the one without any cost.
* `Field` — the named fields of a profile, in the order of the record.
* `Flaw`, `ConfigError` — what can be wrong with a profile or a set of profiles, and the wording.
-/

namespace ClosedLoop

/-- The number that identifies a class of clients. -/
abbrev ClientId := UInt32

/-- The text of a client id. -/
def ClientId.text (id : ClientId) : String := String.ofList (Decimal.wholeChars id.toNat)

/-- How the single costs of a profile scatter around their mean. -/
inductive Distribution where
  /-- Every cost is the mean. -/
  | constant
  /-- Evenly within the mean times one plus or minus the spread. -/
  | uniform (spread : Float)
  /-- Exponentially. -/
  | exponential

/-- A class of clients. Sizes are in megabytes and times in seconds. -/
structure Profile where
  id : ClientId
  name : String
  /-- How many instances run at once. -/
  instances : UInt64
  rpcSize : Float
  replySize : Float
  rpcTime : Float
  memUpdateSize : Float
  logAppendSize : Float
  lookupTime : Float
  readSize : Float
  /-- The part of the data read that is served locally. -/
  shortCircuitRatio : Float
  /-- The pause between a completion and the next request. -/
  thinkTime : Float
  /-- How often the statistics window is cut. -/
  monitorInterval : Float
  distribution : Distribution

/-- The named fields of a profile. -/
inductive Field where
  | clientId
  | clientName
  | numInstances
  | rpcSize
  | replySize
  | rpcTime
  | memUpdateSize
  | logAppendSize
  | lookupTime
  | readSize
  | shortCircuitRatio
  | thinkTime
  | monitorInterval
  | distribution
  deriving DecidableEq, Repr

namespace Field

/-- The name of a field in records, sections and messages. -/
def name : Field → String
  | clientId => "client_id"
  | clientName => "client_name"
  | numInstances => "num_instances"
  | rpcSize => "rpc_size"
  | replySize => "reply_size"
  | rpcTime => "rpc_time"
  | memUpdateSize => "mem_update_size"
  | logAppendSize => "log_append_size"
  | lookupTime => "namenode_lookup_time"
  | readSize => "datanode_read_size"
  | shortCircuitRatio => "short_circuit_ratio"
  | thinkTime => "think_time"
  | monitorInterval => "monitor_interval"
  | distribution => "distribution"

/-- All fields, in the order of the record. -/
def all : List Field :=
  [clientId, clientName, numInstances, rpcSize, replySize, rpcTime, memUpdateSize, logAppendSize,
    lookupTime, readSize, shortCircuitRatio, thinkTime, monitorInterval, distribution]

theorem mem_all (f : Field) : f ∈ all := by cases f <;> simp [all]

end Field

namespace Profile

/-- The monitor interval of a profile that names none, in seconds. -/
def defaultMonitorInterval : Float := 10

/-- A single instance without any cost and without a pause. -/
def blank (id : ClientId) (name : String) : Profile where
  id := id
  name := name
  instances := 1
  rpcSize := 0
  replySize := 0
  rpcTime := 0
  memUpdateSize := 0
  logAppendSize := 0
  lookupTime := 0
  readSize := 0
  shortCircuitRatio := 0
  thinkTime := 0
  monitorInterval := defaultMonitorInterval
  distribution := .constant

/-- The pause of an instance after each completion. -/
def thinkPeriod (p : Profile) : Span := Span.ofSeconds p.thinkTime

/-- The time between two cuts of the statistics window. -/
def monitorPeriod (p : Profile) : Span := Span.ofSeconds p.monitorInterval

end Profile

/-! ### What can be wrong -/

/-- What is wrong with the value of a profile field. -/
inductive Flaw where
  | noInstance
  | notFinite (x : Float)
  | negative (x : Float)
  | notRatio (x : Float)
  | noSpan (x : Float)
  | noPeriod (x : Float)
  | notSpread (x : Float)

/-- The wording of a flaw. -/
def Flaw.message : Flaw → String
  | .noInstance => "must be at least 1"
  | .notFinite x => s!"{Decimal.plain x} is not finite"
  | .negative x => s!"{Decimal.plain x} is negative"
  | .notRatio x => s!"{Decimal.plain x} is not within [0, 1]"
  | .noSpan x => s!"{Decimal.plain x} s does not fit a duration"
  | .noPeriod x => s!"{Decimal.plain x} is not a positive duration"
  | .notSpread x => s!"uniform spread {Decimal.plain x} is not within [0, 1]"

/-- Why an option of a section cannot be used. -/
inductive OptionFlaw where
  | notUnsigned (v : Json.Value)
  | notNumber (v : Json.Value)
  | undecodable (e : Json.DecodeError)

/-- The wording of an unusable option. -/
def OptionFlaw.message : OptionFlaw → String
  | .notUnsigned v => s!"expected an unsigned integer, got {Json.compact v}"
  | .notNumber v => s!"expected a number, got {Json.compact v}"
  | .undecodable e => e.message

/-- Why profiles cannot be used. -/
inductive ConfigError where
  /-- A field of a profile has a flaw. -/
  | invalidProfile (client : ClientId) (field : Field) (flaw : Flaw)
  /-- Two profiles have one id. -/
  | duplicateClient (client : ClientId)
  /-- A section lacks an option. -/
  | missingOption (title : String) (option : Field)
  /-- A section is no table of options. -/
  | notATable (title : String)
  /-- An option of a section cannot be used. -/
  | invalidOption (title : String) (option : Field) (flaw : OptionFlaw)

/-- The wording of a configuration error. -/
def ConfigError.message : ConfigError → String
  | .invalidProfile client field flaw =>
    s!"ConfigError: client {client.text}: invalid value for '{field.name}': {flaw.message}"
  | .duplicateClient client => s!"ConfigError: client id {client.text} is defined more than once"
  | .missingOption title option =>
    s!"ConfigError: client {title} configuration not complete, missing option: {option.name}"
  | .notATable title =>
    s!"ConfigError: client {title}: option '*' cannot be used: section is not a table of options"
  | .invalidOption title option flaw =>
    s!"ConfigError: client {title}: option '{option.name}' cannot be used: {flaw.message}"

end ClosedLoop
