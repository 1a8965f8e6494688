import ClosedLoop.Decimal.Text
import ClosedLoop.Json.Value

/-!
# JSON text

* `compact` — a value on one line without blanks.
* `pretty` — a value over several lines, each level indented by two blanks.

Objects are written in the order of their members.
-/

namespace ClosedLoop.Json

/-- A hexadecimal digit, in lower case. -/
def hexDigit (n : Nat) : Char :=
  if n < 10 then Char.ofNat ('0'.toNat + n) else Char.ofNat ('a'.toNat + (n - 10))

/-- One character of a string, escaped where JSON demands it and nowhere else. -/
def escapeChar (c : Char) : List Char :=
  match c with
  | '"' => ['\\', '"']
  | '\\' => ['\\', '\\']
  | '\x08' => ['\\', 'b']
  | '\x0c' => ['\\', 'f']
  | '\n' => ['\\', 'n']
  | '\r' => ['\\', 'r']
  | '\t' => ['\\', 't']
  | c =>
    if c < ' ' then ['\\', 'u', '0', '0', hexDigit (c.toNat / 16), hexDigit (c.toNat % 16)]
    else [c]

/-- A string in quotes. -/
def stringChars (s : String) : List Char :=
  '"' :: (s.toList.flatMap escapeChar ++ ['"'])

/-- A number: the digits of a whole one, the shortest text of a double, `null` for what is not
finite. -/
def Number.chars : Number → List Char
  | .whole i => Decimal.intChars i
  | .double x => Decimal.chars Decimal.jsonStyle x

/-- The parts with a comma between each two. -/
def separated (separator : List Char) : List (List Char) → List Char
  | [] => []
  | [part] => part
  | part :: rest => part ++ separator ++ separated separator rest

/-! ### One line -/

mutual

/-- A value on one line. -/
def Value.chars : Value → List Char
  | .null => "null".toList
  | .bool true => "true".toList
  | .bool false => "false".toList
  | .number n => n.chars
  | .text s => stringChars s
  | .array items => '[' :: (separated [','] (itemsChars items) ++ [']'])
  | .object members => '\x7b' :: (separated [','] (membersChars members) ++ ['\x7d'])

/-- The items of an array, each on one line. -/
def itemsChars : List Value → List (List Char)
  | [] => []
  | v :: rest => v.chars :: itemsChars rest

/-- The members of an object, each on one line. -/
def membersChars : List (String × Value) → List (List Char)
  | [] => []
  | (name, v) :: rest => (stringChars name ++ ':' :: v.chars) :: membersChars rest

end

/-- A value on one line without blanks. -/
def compact (v : Value) : String := String.ofList v.chars

/-! ### Several lines -/

/-- A line break and the indentation of a level. -/
def lineBreak (level : Nat) : List Char :=
  '\n' :: List.replicate (2 * level) ' '

/-- A bracket around parts, each on a line of its own; without parts the bracket is closed at
once. -/
def bracketed (opening closing : Char) (level : Nat) (parts : List (List Char)) : List Char :=
  match parts with
  | [] => [opening, closing]
  | parts =>
    opening :: (lineBreak (level + 1) ++ separated (',' :: lineBreak (level + 1)) parts ++
      lineBreak level ++ [closing])

mutual

/-- A value that starts on a line of the given level. -/
def Value.prettyChars (level : Nat) : Value → List Char
  | .array items => bracketed '[' ']' level (prettyItems (level + 1) items)
  | .object members => bracketed '\x7b' '\x7d' level (prettyMembers (level + 1) members)
  | scalar => scalar.chars

/-- The items of an array at a level. -/
def prettyItems (level : Nat) : List Value → List (List Char)
  | [] => []
  | v :: rest => v.prettyChars level :: prettyItems level rest

/-- The members of an object at a level. -/
def prettyMembers (level : Nat) : List (String × Value) → List (List Char)
  | [] => []
  | (name, v) :: rest =>
    (stringChars name ++ ':' :: ' ' :: v.prettyChars level) :: prettyMembers level rest

end

/-- A value over several lines. -/
def pretty (v : Value) : String := String.ofList (v.prettyChars 0)

end ClosedLoop.Json
