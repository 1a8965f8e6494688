import ClosedLoop.Profile.Record
import ClosedLoop.Profile.Validation

/-!
# Profiles from named sections

A sections file is one object. Every section whose name contains a given fragment describes a
client by its options; all others are of no concern.

* `Section.profile` — the profile that the options of a section describe.
* `Section.profiles` — the profiles of all matching sections, in the order of the section names.
* `Section.load` — the same, checked as a set, with the warnings of the loading.
-/

namespace ClosedLoop

open Json (Value Members)

/-- The name fragment that marks client sections by default. -/
def defaultSectionFragment : String := "hbase_client"

/-- A named section: a title and a value that should be a table of options. -/
structure Section where
  title : String
  value : Value

namespace Section

/-- Do the characters occur side by side in a text? -/
def occursIn (fragment : List Char) : List Char → Bool
  | [] => fragment.isEmpty
  | c :: rest => fragment.isPrefixOf (c :: rest) || occursIn fragment rest

/-- Does the title contain the fragment? -/
def isMatch (fragment : String) (s : Section) : Bool :=
  occursIn fragment.toList s.title.toList

/-- An option that must be there. -/
def option (title : String) (options : Members) (field : Field) : Except ConfigError Value :=
  match options.lookup field.name with
  | some v => .ok v
  | none => .error (.missingOption title field)

/-- An option that must be a whole number below `limit`. -/
def unsigned (title : String) (options : Members) (limit : Nat) (field : Field) :
    Except ConfigError Nat := do
  let v ← option title options field
  match v.asNat? with
  | some n =>
    if n < limit then .ok n else .error (.invalidOption title field (.notUnsigned v))
  | none => .error (.invalidOption title field (.notUnsigned v))

/-- An option that must be a number. -/
def number (title : String) (options : Members) (field : Field) : Except ConfigError Float := do
  let v ← option title options field
  match v.asFloat? with
  | some x => .ok x
  | none => .error (.invalidOption title field (.notNumber v))

/-- An option that is taken as text: a string as it is, anything else as JSON. -/
def text (title : String) (options : Members) (field : Field) : Except ConfigError String := do
  match ← option title options field with
  | .text s => .ok s
  | other => .ok (Json.compact other)

/-- The option of the monitor interval, which may be missing. -/
def monitorInterval (title : String) (options : Members) : Except ConfigError Float :=
  match options.lookup Field.monitorInterval.name with
  | some _ => number title options .monitorInterval
  | none => .ok Profile.defaultMonitorInterval

/-- The option of the distribution, which may be missing. -/
def distribution (title : String) (options : Members) : Except ConfigError Distribution :=
  match options.lookup Field.distribution.name with
  | some v =>
    match Distribution.ofJson v with
    | .ok d => .ok d
    | .error e => .error (.invalidOption title .distribution (.undecodable e))
  | none => .ok .constant

/-- The profile that the options of a section describe; the first unusable option in the order of
the fields gives the error. -/
def profileOfOptions (title : String) (options : Members) : Except ConfigError Profile := do
  let id ← unsigned title options UInt32.size .clientId
  let name ← text title options .clientName
  let instances ← unsigned title options UInt64.size .numInstances
  let rpcSize ← number title options .rpcSize
  let replySize ← number title options .replySize
  let rpcTime ← number title options .rpcTime
  let memUpdateSize ← number title options .memUpdateSize
  let logAppendSize ← number title options .logAppendSize
  let lookupTime ← number title options .lookupTime
  let readSize ← number title options .readSize
  let shortCircuitRatio ← number title options .shortCircuitRatio
  let thinkTime ← number title options .thinkTime
  let monitorInterval ← monitorInterval title options
  let distribution ← distribution title options
  return { id := UInt32.ofNat id, name, instances := UInt64.ofNat instances, rpcSize, replySize,
           rpcTime, memUpdateSize, logAppendSize, lookupTime, readSize, shortCircuitRatio,
           thinkTime, monitorInterval, distribution }

/-- The profile that a section describes. -/
def profile (s : Section) : Except ConfigError Profile :=
  match s.value with
  | .object options => profileOfOptions s.title options
  | _ => .error (.notATable s.title)

/-- The profiles of the matching sections, up to the first section that is unusable. -/
def profiles (fragment : String) (sections : List Section) : Except ConfigError (List Profile) :=
  (sections.filter (isMatch fragment)).mapM profile

/-- The sections of an object, in the order of its members. -/
def ofMembers (members : Members) : List Section :=
  members.map fun (title, value) => ⟨title, value⟩

/-- What loading logs if no section matches. -/
def noneFoundWarning : String :=
  "no client configuration section found, returning an empty list"

/-- The profiles of the matching sections, checked as a set, and the warnings of the loading. -/
def load (fragment : String) (sections : List Section) :
    Except ConfigError (List Profile) × List String :=
  match profiles fragment sections with
  | .error e => (.error e, [])
  | .ok found =>
    ((validateAll found).map fun _ => found, if found.isEmpty then [noneFoundWarning] else [])

end Section

end ClosedLoop
