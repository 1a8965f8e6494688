import ClosedLoop.Profile.Basic

/-!
# Profiles as JSON records

* `Profile.toJson` — a profile as an object with its fields in order.
* `Profile.ofJson` — an object or a list of the fields in order as a profile. Unknown members are
  ignored; the monitor interval and the distribution may be missing.
* `Distribution.toJson`, `Distribution.ofJson` — the same for a distribution.
-/

namespace ClosedLoop

open Json (Value DecodeError Members)

/-! ### Distributions -/

namespace Distribution

/-- The names of the distributions. -/
def names : List String := ["constant", "uniform", "exponential"]

/-- A distribution as JSON: its name, or its name with its data. -/
def toJson : Distribution → Value
  | constant => .text "constant"
  | uniform spread => .object [("uniform", .object [("spread", .ofFloat spread)])]
  | exponential => .text "exponential"

/-- A distribution without data: nothing or `null` may follow its name. -/
def withoutData (d : Distribution) : Option Value → Except DecodeError Distribution
  | none => .ok d
  | some .null => .ok d
  | some v => .error (.invalidType v.found .unit)

/-- The data of a uniform distribution. -/
def uniformOfData : Option Value → Except DecodeError Distribution
  | none => .error (.invalidType .unitVariant .structVariant)
  | some (.object members) =>
    match members.lookup "spread" with
    | some v => (Json.decodeFloat v).map uniform
    | none => .error (.missingField "spread")
  | some v => .error (.invalidType v.found .structVariant)

/-- The distribution with a name and the data that follow it. -/
def ofNameAndData (name : String) (data : Option Value) : Except DecodeError Distribution :=
  if name = "constant" then withoutData constant data
  else if name = "uniform" then uniformOfData data
  else if name = "exponential" then withoutData exponential data
  else .error (.unknownVariant name names)

/-- A name, or an object whose single member is a name with its data. -/
def ofJson : Value → Except DecodeError Distribution
  | .text name => ofNameAndData name none
  | .object [(name, data)] => ofNameAndData name (some data)
  | .object _ => .error (.invalidValue .map .singleMember)
  | v => .error (.invalidType v.found .textOrMap)

end Distribution

namespace Profile

/-- A profile as an object with its fields in order. -/
def toJson (p : Profile) : Value :=
  .object
    [(Field.clientId.name, .ofNat p.id.toNat), (Field.clientName.name, .text p.name),
      (Field.numInstances.name, .ofNat p.instances.toNat),
      (Field.rpcSize.name, .ofFloat p.rpcSize), (Field.replySize.name, .ofFloat p.replySize),
      (Field.rpcTime.name, .ofFloat p.rpcTime),
      (Field.memUpdateSize.name, .ofFloat p.memUpdateSize),
      (Field.logAppendSize.name, .ofFloat p.logAppendSize),
      (Field.lookupTime.name, .ofFloat p.lookupTime), (Field.readSize.name, .ofFloat p.readSize),
      (Field.shortCircuitRatio.name, .ofFloat p.shortCircuitRatio),
      (Field.thinkTime.name, .ofFloat p.thinkTime),
      (Field.monitorInterval.name, .ofFloat p.monitorInterval),
      (Field.distribution.name, p.distribution.toJson)]

/-- Puts the decoded value of a field into a profile. -/
def decodeField (p : Profile) (field : Field) (v : Value) : Except DecodeError Profile :=
  match field with
  | .clientId =>
    (Json.decodeWhole UInt32.size .word32 v).map fun n => { p with id := UInt32.ofNat n }
  | .clientName => (Json.decodeText v).map fun s => { p with name := s }
  | .numInstances =>
    (Json.decodeWhole UInt64.size .count v).map fun n => { p with instances := UInt64.ofNat n }
  | .rpcSize => (Json.decodeFloat v).map fun x => { p with rpcSize := x }
  | .replySize => (Json.decodeFloat v).map fun x => { p with replySize := x }
  | .rpcTime => (Json.decodeFloat v).map fun x => { p with rpcTime := x }
  | .memUpdateSize => (Json.decodeFloat v).map fun x => { p with memUpdateSize := x }
  | .logAppendSize => (Json.decodeFloat v).map fun x => { p with logAppendSize := x }
  | .lookupTime => (Json.decodeFloat v).map fun x => { p with lookupTime := x }
  | .readSize => (Json.decodeFloat v).map fun x => { p with readSize := x }
  | .shortCircuitRatio => (Json.decodeFloat v).map fun x => { p with shortCircuitRatio := x }
  | .thinkTime => (Json.decodeFloat v).map fun x => { p with thinkTime := x }
  | .monitorInterval => (Json.decodeFloat v).map fun x => { p with monitorInterval := x }
  | .distribution => (Distribution.ofJson v).map fun d => { p with distribution := d }

/-- May this field be missing from a record? -/
def isOptional (field : Field) : Bool :=
  field = .monitorInterval || field = .distribution

/-- The profile that decoding starts from: it holds the values of the fields that may be missing. -/
def undecoded : Profile := blank 0 ""

/-- Decodes the members that name a field, in the order of the members. -/
def decodeMembers (p : Profile) : Members → Except DecodeError Profile
  | [] => .ok p
  | (name, v) :: rest =>
    match Field.all.find? (·.name = name) with
    | none => decodeMembers p rest
    | some field =>
      match p.decodeField field v with
      | .error e => .error e
      | .ok q => decodeMembers q rest

/-- Decodes the values of fields in order. -/
def decodeItems (p : Profile) : List Field → List Value → Except DecodeError Profile
  | [], _ => .ok p
  | field :: fields, v :: rest =>
    match p.decodeField field v with
    | .error e => .error e
    | .ok q => decodeItems q fields rest
  | field :: fields, [] =>
    if isOptional field then decodeItems p fields []
    else
      .error (.invalidLength (Field.all.length - (fields.length + 1))
        (.profileOfLength Field.all.length))

/-- An object: every member that names a field must have its type, then no field but the optional
ones may be missing. -/
def ofMembers (members : Members) : Except DecodeError Profile :=
  match undecoded.decodeMembers members with
  | .error e => .error e
  | .ok p =>
    match Field.all.find? fun f => !isOptional f && (members.lookup f.name).isNone with
    | some missing => .error (.missingField missing.name)
    | none => .ok p

/-- A list: the values of the fields in order and nothing after them. -/
def ofItems (items : List Value) : Except DecodeError Profile :=
  match undecoded.decodeItems Field.all items with
  | .error e => .error e
  | .ok p =>
    if Field.all.length < items.length then
      .error (.invalidLength items.length .shorterSequence)
    else .ok p

/-- A record as a profile. -/
def ofJson : Value → Except DecodeError Profile
  | .object members => ofMembers members
  | .array items => ofItems items
  | v => .error (.invalidType v.found .profile)

end Profile

end ClosedLoop
