/-!
# Options on a command line

A command line is read from left to right. The value of an option is looked at only when the next
known option or the end is reached, so an unknown argument after it is reported first.

* `OptionSpec`, `Reading` — a known option, and what was read so far.
* `Reading.step` — one argument.
* `readOptions` — the arguments up to the first that belongs to no option.
* `Given.value?`, `Given.has` — what was given.
-/

namespace ClosedLoop.Command

/-- Why arguments are refused, or what they ask for instead of a command. -/
inductive UsageError where
  | unknownArgument
  /-- A number does not parse. -/
  | valueValidation
  /-- A value is missing or none of the possible ones. -/
  | invalidValue
  /-- An option is given twice. -/
  | argumentConflict
  /-- A flag is given a value. -/
  | tooManyValues
  | invalidSubcommand
  | missingSubcommand
  /-- No arguments at all. -/
  | missingArguments
  /-- The user asks for help. -/
  | displayHelp
  /-- The user asks for the version. -/
  | displayVersion
  deriving DecidableEq, Repr

/-- What an option does. -/
inductive OptionKind where
  | flag
  /-- Takes a value; the function tells what is wrong with one. -/
  | value (flaw? : String → Option UsageError)
  | help
  | version

/-- A known option. -/
structure OptionSpec where
  long : String
  short : Option Char
  kind : OptionKind

/-- The options given, by their long names, with their values; a flag has an empty value. -/
abbrev Given := List (String × String)

/-- The value of an option. -/
def Given.value? (given : Given) (long : String) : Option String := given.lookup long

/-- Was an option given? -/
def Given.has (given : Given) (long : String) : Bool := (given.value? long).isSome

/-- What was read so far: the options, and the one whose value is still to be looked at. -/
structure Reading where
  given : Given
  pending : Option (OptionSpec × Option String)

namespace Reading

/-- Nothing read. -/
def start : Reading := ⟨[], none⟩

/-- An option with a value that was looked at. -/
def add (r : Reading) (spec : OptionSpec) (value : String) : Except UsageError Reading :=
  if r.given.has spec.long then .error .argumentConflict
  else .ok { r with given := r.given ++ [(spec.long, value)] }

/-- Takes in an option with its value. -/
def addValue (r : Reading) (spec : OptionSpec) (flaw? : String → Option UsageError)
    (value : String) : Except UsageError Reading := do
  let added ← r.add spec value
  match flaw? value with
  | some e => .error e
  | none => .ok added

/-- Looks at the value of the pending option. -/
def settle (r : Reading) : Except UsageError Reading :=
  let settled := { r with pending := none }
  match r.pending with
  | none => .ok settled
  | some (_, none) => .error .invalidValue
  | some (spec, some value) =>
    match spec.kind with
    | .value flaw? => settled.addValue spec flaw? value
    | _ => .ok settled

/-- A known option; `attached` is the value that is written together with it. -/
def known (r : Reading) (spec : OptionSpec) (attached : Option String) :
    Except UsageError Reading := do
  match spec.kind, attached with
  | .value flaw?, some value => (← r.settle).addValue spec flaw? value
  | .value _, none => return { (← r.settle) with pending := some (spec, none) }
  | _, some _ => .error .tooManyValues
  | .flag, none => (← r.settle).add spec ""
  | .help, none => let _ ← r.settle; .error .displayHelp
  | .version, none => let _ ← r.settle; .error .displayVersion

/-- An option in its long form, with the value behind an equals sign if there is one. -/
def long (specs : List OptionSpec) (r : Reading) (body : List Char) : Except UsageError Reading :=
  let name := String.ofList (body.takeWhile (· ≠ '='))
  let attached :=
    match body.dropWhile (· ≠ '=') with
    | _ :: value => some (String.ofList value)
    | [] => none
  match specs.find? (·.long = name) with
  | some spec => r.known spec attached
  | none => .error .unknownArgument

/-- Options in their short form, side by side; what follows the letter of an option that takes a
value is its value, with or without an equals sign. -/
def shorts (specs : List OptionSpec) (r : Reading) : List Char → Except UsageError Reading
  | [] => .ok r
  | letter :: rest =>
    match specs.find? (·.short = some letter) with
    | none => .error .unknownArgument
    | some spec =>
      match spec.kind, rest with
      | .value _, [] => r.known spec none
      | .value _, '=' :: value => r.known spec (some (String.ofList value))
      | .value _, value => r.known spec (some (String.ofList value))
      | _, rest => do shorts specs (← r.known spec none) rest

end Reading

/-- Reads arguments up to the first one that is neither an option nor the value of one; gives what
was read and the arguments from there on. Two dashes alone end the options. -/
def readOptions (specs : List OptionSpec) (r : Reading) :
    List String → Except UsageError (Reading × List String)
  | [] => .ok (r, [])
  | arg :: rest =>
    match arg.toList, r.pending with
    | ['-', '-'], _ => .ok (r, arg :: rest)
    | '-' :: '-' :: body, _ => do readOptions specs (← r.long specs body) rest
    | '-' :: letter :: letters, _ => do
      readOptions specs (← r.shorts specs (letter :: letters)) rest
    | _, some (spec, none) => readOptions specs { r with pending := some (spec, some arg) } rest
    | _, _ => .ok (r, arg :: rest)

end ClosedLoop.Command
