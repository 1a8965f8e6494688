import ClosedLoop.Binary

/-!
# JSON values

A number keeps whether it was written as a whole number within 64 bits or as a floating-point
number, because readers of records tell the two apart. The members of an object are a list; readers
build it in ascending order of the names.

* `Value.member?` — the member of an object with a name.
* `insertMember` — a member put at its place, replacing an earlier one of the same name.
-/

namespace ClosedLoop.Json

/-- A JSON number: a whole number from `-2 ^ 63` to `2 ^ 64 - 1`, or a double. -/
inductive Number where
  | whole (i : Int)
  | double (x : Float)

/-- A JSON value. -/
inductive Value where
  | null
  | bool (b : Bool)
  | number (n : Number)
  | text (s : String)
  | array (items : List Value)
  | object (members : List (String × Value))

instance : Inhabited Value := ⟨.null⟩

/-- The members of an object. -/
abbrev Members := List (String × Value)

/-- The member of that name. -/
def Members.get? (members : Members) (name : String) : Option Value :=
  members.lookup name

/-- Puts a member at its place in ascending order of the names; of two with one name the new one
stays. -/
def insertMember (name : String) (value : Value) : Members → Members
  | [] => [(name, value)]
  | (other, old) :: rest =>
    if name = other then (name, value) :: rest
    else if name < other then (name, value) :: (other, old) :: rest
    else (other, old) :: insertMember name value rest

/-- The members in ascending order of the names; of several with one name the last stays. -/
def sortMembers (members : Members) : Members :=
  members.foldl (fun sorted m => insertMember m.1 m.2 sorted) []

namespace Value

/-- An object with its members in ascending order of the names. -/
def ofMembers (members : Members) : Value := .object (sortMembers members)

/-- A natural number. -/
def ofNat (n : Nat) : Value := .number (.whole n)

/-- A double. -/
def ofFloat (x : Float) : Value := .number (.double x)

/-- The member of that name, if this is an object that has one. -/
def member? (v : Value) (name : String) : Option Value :=
  match v with
  | .object members => Members.get? members name
  | _ => none

/-- The number as a natural number, if it was written as one. -/
def asNat? : Value → Option Nat
  | .number (.whole (.ofNat n)) => some n
  | _ => none

/-- The number as a double, a whole number rounded to the nearest one. -/
def asFloat? : Value → Option Float
  | .number (.whole i) => some (Binary.ofQuotient (i < 0) i.natAbs 1)
  | .number (.double x) => some x
  | _ => none

end Value

end ClosedLoop.Json
