import ClosedLoop.Json.Token

/-!
# Reading JSON text

A reader takes one token after the other. Its state is the stack of open brackets, each with what
was read inside it so far, and what may come next.

* `Reader.step` — one token.
* `parse?` — a whole text as one value.
* `parseObject` — a whole text as one object, telling malformed text from a text
  that starts as another kind of value.
-/

namespace ClosedLoop.Json

/-- How many brackets may be open at once. -/
def maxDepth : Nat := 127

/-- An open bracket with what was read inside it: the items of an array, latest first, or the
members of an object. -/
inductive Open where
  | array (items : List Value)
  | object (members : Members)
  /-- An object whose member of this name is being read. -/
  | member (members : Members) (name : String)

/-- What may come next inside the innermost open bracket. -/
inductive Want where
  /-- A value. -/
  | value
  /-- A value or the end of the array just opened. -/
  | firstValue
  /-- The name of a member. -/
  | name
  /-- The name of a member or the end of the object just opened. -/
  | firstName
  /-- The colon after a name. -/
  | colon
  /-- A comma or the end of the bracket. -/
  | separator
  deriving DecidableEq

/-- The state of a reader. -/
inductive Reader where
  | reading (stack : List Open) (want : Want)
  | finished (v : Value)

namespace Reader

/-- The state before the first token. -/
def start : Reader := .reading [] .value

/-- A complete value goes to the innermost open bracket; without one the text is complete. -/
def complete (v : Value) : List Open → Option Reader
  | [] => some (.finished v)
  | .array items :: stack => some (.reading (.array (v :: items) :: stack) .separator)
  | .member members name :: stack =>
    some (.reading (.object (insertMember name v members) :: stack) .separator)
  | .object _ :: _ => none

/-- Opens a bracket, unless too many are open. -/
def enter (bracket : Open) (want : Want) (stack : List Open) : Option Reader :=
  if stack.length < maxDepth then some (.reading (bracket :: stack) want) else none

/-- The token at a place where a value may come. -/
def stepValue (stack : List Open) : Token → Option Reader
  | .scalar v => complete v stack
  | .openArray => enter (.array []) .firstValue stack
  | .openObject => enter (.object []) .firstName stack
  | _ => none

/-- The token at a place where the name of a member may come. -/
def stepName : List Open → Token → Option Reader
  | .object members :: stack, .scalar (.text name) =>
    some (.reading (.member members name :: stack) .colon)
  | _, _ => none

/-- Closes the innermost array. -/
def closeArray : List Open → Option Reader
  | .array items :: stack => complete (.array items.reverse) stack
  | _ => none

/-- Closes the innermost object. -/
def closeObject : List Open → Option Reader
  | .object members :: stack => complete (.object members) stack
  | _ => none

/-- The state after one more token, if the token may come here. -/
def step : Reader → Token → Option Reader
  | .finished _, _ => none
  | .reading stack .value, token => stepValue stack token
  | .reading stack .firstValue, .closeArray => closeArray stack
  | .reading stack .firstValue, token => stepValue stack token
  | .reading stack .name, token => stepName stack token
  | .reading stack .firstName, .closeObject => closeObject stack
  | .reading stack .firstName, token => stepName stack token
  | .reading stack .colon, .colon => some (.reading stack .value)
  | .reading (.array items :: stack) .separator, .comma =>
    some (.reading (.array items :: stack) .value)
  | .reading (.object members :: stack) .separator, .comma =>
    some (.reading (.object members :: stack) .name)
  | .reading stack .separator, .closeArray => closeArray stack
  | .reading stack .separator, .closeObject => closeObject stack
  | .reading _ _, _ => none

/-- The value of a reader that has seen a whole text. -/
def result? : Reader → Option Value
  | .finished v => some v
  | .reading _ _ => none

end Reader

/-- The value of a sequence of tokens. -/
def ofTokens? (tokens : List Token) : Option Value :=
  (tokens.foldlM Reader.step Reader.start).bind Reader.result?

/-- The value that a whole text stands for. -/
def parseChars? (cs : List Char) : Option Value :=
  (tokens? cs).bind ofTokens?

/-- The value that a whole text stands for. -/
def parse? (s : String) : Option Value := parseChars? s.toList

/-! ### Texts that must be an object -/

/-- Why a text is no object. -/
inductive ObjectError where
  /-- The text is no JSON. -/
  | malformed
  /-- The text starts as a value of another kind. -/
  | otherKind
  deriving DecidableEq, Repr

/-- The members of the object that a whole text stands for. What starts as another kind of value is
refused at its first token, whatever follows it. -/
def parseObject (s : String) : Except ObjectError Members :=
  match Token.next? s.toList with
  | some (.scalar _, _) => .error .otherKind
  | some (.openArray, _) => .error .otherKind
  | some (.openObject, _) =>
    match parse? s with
    | some (.object members) => .ok members
    | _ => .error .malformed
  | _ => .error .malformed

end ClosedLoop.Json
