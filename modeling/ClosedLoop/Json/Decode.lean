import ClosedLoop.Decimal.Text
import ClosedLoop.Json.Value
import ClosedLoop.Text.Quoted

/-!
# Decoding JSON values into typed data

* `Found`, `Expected` — what stood there and what should have.
* `DecodeError` — why a value is no datum of the wanted type, with its wording in `message`.
* `decodeWhole`, `decodeFloat`, `decodeText` — the scalars.
-/

namespace ClosedLoop.Json

/-- What a decoder found. -/
inductive Found where
  | null
  | bool (b : Bool)
  | whole (i : Int)
  | double (x : Float)
  | text (s : String)
  | sequence
  | map
  /-- The name of a variant without data. -/
  | unitVariant

/-- What a decoder wanted. -/
inductive Expected where
  /-- A whole number of 32 bits. -/
  | word32
  /-- A whole number of the size of a count. -/
  | count
  | double
  | text
  | profile
  | profileOfLength (n : Nat)
  | shorterSequence
  | textOrMap
  | singleMember
  | unit
  | structVariant
  deriving DecidableEq, Repr

/-- Why a value is no datum of the wanted type. -/
inductive DecodeError where
  | invalidType (found : Found) (expected : Expected)
  | invalidValue (found : Found) (expected : Expected)
  | invalidLength (length : Nat) (expected : Expected)
  | missingField (name : String)
  | unknownVariant (name : String) (known : List String)

/-- The description of what was found; a double is written as in JSON. -/
def Found.describe : Found → String
  | .null => "null"
  | .bool b => s!"boolean `{b}`"
  | .whole i => s!"integer `{String.ofList (Decimal.intChars i)}`"
  | .double x => s!"floating point `{String.ofList (Decimal.chars Decimal.jsonStyle x)}`"
  | .text s => s!"string {Text.quoted s}"
  | .sequence => "sequence"
  | .map => "map"
  | .unitVariant => "unit variant"

/-- The description of what was wanted. -/
def Expected.describe : Expected → String
  | .word32 => "u32"
  | .count => "usize"
  | .double => "f64"
  | .text => "a string"
  | .profile => "struct ClientProfile"
  | .profileOfLength n => s!"struct ClientProfile with {n} elements"
  | .shorterSequence => "fewer elements in array"
  | .textOrMap => "string or map"
  | .singleMember => "map with a single key"
  | .unit => "unit"
  | .structVariant => "struct variant"

/-- The wording of a decoding error. -/
def DecodeError.message : DecodeError → String
  | .invalidType found expected => s!"invalid type: {found.describe}, expected {expected.describe}"
  | .invalidValue found expected =>
    s!"invalid value: {found.describe}, expected {expected.describe}"
  | .invalidLength n expected => s!"invalid length {n}, expected {expected.describe}"
  | .missingField name => s!"missing field `{name}`"
  | .unknownVariant name known =>
    let names := String.intercalate ", " (known.map fun k => s!"`{k}`")
    s!"unknown variant `{name}`, expected one of {names}"

/-- A value as a decoder describes it. -/
def Value.found : Value → Found
  | .null => .null
  | .bool b => .bool b
  | .number (.whole i) => .whole i
  | .number (.double x) => .double x
  | .text s => .text s
  | .array _ => .sequence
  | .object _ => .map

/-! ### Scalars -/

/-- A whole number from zero to below `limit`. A whole number outside is a wrong value, anything
else a wrong type. -/
def decodeWhole (limit : Nat) (expected : Expected) : Value → Except DecodeError Nat
  | .number (.whole (.ofNat n)) =>
    if n < limit then .ok n else .error (.invalidValue (.whole n) expected)
  | .number (.whole i) => .error (.invalidValue (.whole i) expected)
  | v => .error (.invalidType v.found expected)

/-- Any number as a double. -/
def decodeFloat (v : Value) : Except DecodeError Float :=
  match v.asFloat? with
  | some x => .ok x
  | none => .error (.invalidType v.found .double)

/-- A string. -/
def decodeText : Value → Except DecodeError String
  | .text s => .ok s
  | v => .error (.invalidType v.found .text)

end ClosedLoop.Json
