import ClosedLoop.Profile.Record
import Mathlib.Data.List.Nodup

namespace ClosedLoop

open Json (Value DecodeError Members)

/-!
# What a record says of the fields of a profile

Decoding goes through the members of a record in their order and writes each value into the profile.
Which profile comes out depends on the single fields only: on the member that carries the name of a
field, or, where there is none, on what the field may be without one.

* `Datum`, `Field.decode`, `Profile.get`, `Profile.set` — the value of a field as such;
* `Profile.decodeField_eq` — decoding a member decodes its value and sets its field;
* `Profile.Fits` — a profile has in a field what the members say of it;
* `Profile.decodeMembers_ok_iff`, `Profile.ofMembers_ok_iff` — a record is decoded to the profile
  that fits it in every field, and to no other.
-/

/-! ### Results that may be errors -/

/-- A sequence of two steps succeeds if the first does and the second does with its result. -/
theorem bind_eq_ok_iff {ε α β : Type} (x : Except ε α) (f : α → Except ε β) (b : β) :
    (x >>= f) = .ok b ↔ ∃ a, x = .ok a ∧ f a = .ok b := by
  cases x <;> simp [bind, Except.bind]

/-- A mapped result is a success if the result is. -/
theorem map_eq_ok_iff {ε α β : Type} (x : Except ε α) (f : α → β) (b : β) :
    x.map f = .ok b ↔ ∃ a, x = .ok a ∧ f a = b := by
  cases x <;> simp [Except.map]

/-- A sequence of two steps fails if the first does, or the second does with its result. -/
theorem bind_eq_error_iff {ε α β : Type} (x : Except ε α) (f : α → Except ε β) (e : ε) :
    (x >>= f) = .error e ↔ x = .error e ∨ ∃ a, x = .ok a ∧ f a = .error e := by
  cases x <;> simp [bind, Except.bind]

/-- A mapped result is an error if the result is. -/
theorem map_eq_error_iff {ε α β : Type} (x : Except ε α) (f : α → β) (e : ε) :
    x.map f = .error e ↔ x = .error e := by
  cases x <;> simp [Except.map]

/-- What is no error is a success. -/
theorem not_error_iff {ε α : Type} (x : Except ε α) :
    (∀ e, x ≠ .error e) ↔ ∃ a, x = .ok a := by
  cases x <;> simp

/-- A list is read if every element is. -/
theorem mapM_ok_iff {ε α β : Type} {f : α → Except ε β} {l : List α} {bs : List β} :
    l.mapM f = .ok bs ↔ List.Forall₂ (fun a b => f a = .ok b) l bs := by
  induction l generalizing bs with
  | nil => simp [List.mapM_nil, pure, Except.pure, eq_comm]
  | cons a l ih =>
    rw [List.mapM_cons, bind_eq_ok_iff, List.forall₂_cons_left_iff]
    simp only [bind_eq_ok_iff, ih, pure, Except.pure, Except.ok.injEq]
    constructor
    · rintro ⟨b, hb, bs, hbs, rfl⟩
      exact ⟨b, bs, hb, hbs, rfl⟩
    · rintro ⟨b, bs, hb, hbs, rfl⟩
      exact ⟨b, hb, bs, hbs, rfl⟩

/-! ### The values of fields -/

/-- The value of a field. -/
inductive Datum where
  | client (id : ClientId)
  | name (s : String)
  | count (n : UInt64)
  | double (x : Float)
  | scatter (d : Distribution)

/-- Decodes the value of a field as such. -/
def Field.decode (f : Field) (v : Value) : Except DecodeError Datum :=
  match f with
  | .clientId => (Json.decodeWhole UInt32.size .word32 v).map fun n => .client (UInt32.ofNat n)
  | .clientName => (Json.decodeText v).map .name
  | .numInstances => (Json.decodeWhole UInt64.size .count v).map fun n => .count (UInt64.ofNat n)
  | .distribution => (Distribution.ofJson v).map .scatter
  | _ => (Json.decodeFloat v).map .double

/-- Two fields with one name are one field. -/
theorem Field.name_injective {f g : Field} (h : f.name = g.name) : f = g := by
  cases f <;> cases g <;> first | rfl | exact absurd h (by decide)

namespace Profile

/-- What a profile has in a field. -/
def get (p : Profile) : Field → Datum
  | .clientId => .client p.id
  | .clientName => .name p.name
  | .numInstances => .count p.instances
  | .rpcSize => .double p.rpcSize
  | .replySize => .double p.replySize
  | .rpcTime => .double p.rpcTime
  | .memUpdateSize => .double p.memUpdateSize
  | .logAppendSize => .double p.logAppendSize
  | .lookupTime => .double p.lookupTime
  | .readSize => .double p.readSize
  | .shortCircuitRatio => .double p.shortCircuitRatio
  | .thinkTime => .double p.thinkTime
  | .monitorInterval => .double p.monitorInterval
  | .distribution => .scatter p.distribution

/-- Puts a value into a field; a value of another kind changes nothing. -/
def set (p : Profile) : Field → Datum → Profile
  | .clientId, .client id => { p with id := id }
  | .clientName, .name s => { p with name := s }
  | .numInstances, .count n => { p with instances := n }
  | .rpcSize, .double x => { p with rpcSize := x }
  | .replySize, .double x => { p with replySize := x }
  | .rpcTime, .double x => { p with rpcTime := x }
  | .memUpdateSize, .double x => { p with memUpdateSize := x }
  | .logAppendSize, .double x => { p with logAppendSize := x }
  | .lookupTime, .double x => { p with lookupTime := x }
  | .readSize, .double x => { p with readSize := x }
  | .shortCircuitRatio, .double x => { p with shortCircuitRatio := x }
  | .thinkTime, .double x => { p with thinkTime := x }
  | .monitorInterval, .double x => { p with monitorInterval := x }
  | .distribution, .scatter d => { p with distribution := d }
  | _, _ => p

/-- Profiles with the same fields are the same. -/
theorem ext_get {p q : Profile} (h : ∀ f, p.get f = q.get f) : p = q := by
  have hid := h .clientId
  have hname := h .clientName
  have hinstances := h .numInstances
  have hrpcSize := h .rpcSize
  have hreplySize := h .replySize
  have hrpcTime := h .rpcTime
  have hmemUpdateSize := h .memUpdateSize
  have hlogAppendSize := h .logAppendSize
  have hlookupTime := h .lookupTime
  have hreadSize := h .readSize
  have hratio := h .shortCircuitRatio
  have hthinkTime := h .thinkTime
  have hinterval := h .monitorInterval
  have hdistribution := h .distribution
  cases p
  cases q
  simp_all only [get, Datum.client.injEq, Datum.name.injEq, Datum.count.injEq,
    Datum.double.injEq, Datum.scatter.injEq]

/-- Setting a field leaves the others alone. -/
theorem get_set_of_ne (p : Profile) {f g : Field} (d : Datum) (hne : g ≠ f) :
    (p.set f d).get g = p.get g := by
  cases f <;> cases d <;> first | rfl | (cases g <;> first | rfl | exact absurd rfl hne)

/-- A field that is set to a value decoded for it has that value. -/
theorem get_set_of_decode (p : Profile) {f : Field} {v : Value} {d : Datum}
    (hdecode : f.decode v = .ok d) : (p.set f d).get f = d := by
  cases f <;> obtain ⟨x, -, rfl⟩ := (map_eq_ok_iff _ _ _).mp hdecode <;> rfl

/-- Decoding a member decodes its value and sets its field. -/
theorem decodeField_eq (p : Profile) (f : Field) (v : Value) :
    p.decodeField f v = (f.decode v).map (p.set f) := by
  have hmap {α : Type} (x : Except DecodeError α) (make : α → Datum) :
      (x.map make).map (p.set f) = x.map fun a => p.set f (make a) := by cases x <;> rfl
  cases f <;> simp only [Field.decode, hmap] <;> rfl

/-! ### Records -/

/-- The profile has in a field what the members say of it: the decoded value of the member with the
name of the field, and without such a member the value `absent`, if there is one. -/
def Fits (p : Profile) (members : Members) (f : Field) (absent : Option Datum) : Prop :=
  match members.lookup f.name with
  | some v => f.decode v = .ok (p.get f)
  | none => absent = some (p.get f)

/-- What a field may be without a member that names it. -/
def absent (f : Field) : Option Datum :=
  if isOptional f then some (undecoded.get f) else none

/-- The first member is found under its name. -/
private theorem lookup_cons_self {name : String} {v : Value} {rest : Members} :
    List.lookup name ((name, v) :: rest) = some v := by
  rw [List.lookup_cons, beq_self_eq_true]

/-- Under another name the first member is passed over. -/
private theorem lookup_cons_of_ne {name other : String} {v : Value} {rest : Members}
    (hne : name ≠ other) : List.lookup name ((other, v) :: rest) = rest.lookup name := by
  rw [List.lookup_cons, beq_eq_false_iff_ne.mpr hne]

/-- A name that no member has is not found. -/
theorem lookup_eq_none_of_not_mem {name : String} {members : Members}
    (h : name ∉ members.map Prod.fst) : members.lookup name = none := by
  rw [List.lookup_eq_none_iff]
  intro m hm
  have hne : name ≠ m.1 := by
    rintro rfl
    exact h (List.mem_map_of_mem hm)
  simpa using hne

/-- **Members with different names are decoded to the profile that has in every field what they say
of it, and what the profile before had where they say nothing.** -/
theorem decodeMembers_ok_iff (p q : Profile) (members : Members)
    (hnames : (members.map Prod.fst).Nodup) :
    p.decodeMembers members = .ok q ↔ ∀ f, q.Fits members f (some (p.get f)) := by
  induction members generalizing p with
  | nil =>
    show Except.ok p = .ok q ↔ ∀ f, some (p.get f) = some (q.get f)
    constructor
    · intro h
      obtain rfl : p = q := by simpa using h
      exact fun _ => rfl
    · intro h
      rw [ext_get fun f => Option.some.inj (h f)]
  | cons m rest ih =>
    obtain ⟨name, v⟩ := m
    obtain ⟨hfresh, hrest⟩ : name ∉ rest.map Prod.fst ∧ (rest.map Prod.fst).Nodup := by
      simpa using hnames
    rw [decodeMembers]
    cases hfind : Field.all.find? (·.name = name) with
    | none =>
      -- no field has this name, so no field looks at this member
      have hne (f : Field) : f.name ≠ name := by
        simpa using List.find?_eq_none.mp hfind f f.mem_all
      simp only [ih p hrest, Fits, lookup_cons_of_ne (hne _)]
    | some field =>
      have hname : field.name = name := by simpa using List.find?_some hfind
      subst hname
      have hmissing : rest.lookup field.name = none := lookup_eq_none_of_not_mem hfresh
      simp only [decodeField_eq]
      cases hdecode : field.decode v with
      | error e =>
        refine ⟨fun h => by simp [Except.map] at h, fun h => ?_⟩
        have hfield := h field
        rw [Fits, lookup_cons_self] at hfield
        simp [hdecode] at hfield
      | ok d =>
        simp only [Except.map]
        rw [ih (p.set field d) hrest]
        refine forall_congr' fun f => ?_
        by_cases hf : f = field
        · -- the rest says nothing of this field: its value is the one just set
          subst hf
          simp only [Fits, hmissing, lookup_cons_self, hdecode, get_set_of_decode p hdecode,
            Option.some.injEq, Except.ok.injEq]
        · have hne : f.name ≠ field.name := fun h => hf (Field.name_injective h)
          simp only [Fits, lookup_cons_of_ne hne, get_set_of_ne p d hf]

/-- **A record whose members have different names is decoded to the profile that fits it in every
field, and to no other; only the optional fields may be missing.** -/
theorem ofMembers_ok_iff (members : Members) (hnames : (members.map Prod.fst).Nodup)
    (q : Profile) :
    ofMembers members = .ok q ↔ ∀ f, q.Fits members f (absent f) := by
  -- Decoding looks at each member by itself. What is missing is looked for afterwards.
  have hdecoded := decodeMembers_ok_iff undecoded q members hnames
  have hfits (f : Field) : q.Fits members f (absent f) ↔
      q.Fits members f (some (undecoded.get f)) ∧
        ¬(!isOptional f && (members.lookup f.name).isNone) = true := by
    unfold Fits absent
    cases members.lookup f.name <;> cases isOptional f <;> simp
  simp only [hfits, forall_and, ← hdecoded]
  rw [ofMembers]
  cases undecoded.decodeMembers members with
  | error e => simp
  | ok p =>
    cases hmissing :
        Field.all.find? fun f => !isOptional f && (members.lookup f.name).isNone with
    | some missing =>
      have hlack := List.find?_some hmissing
      simp only [reduceCtorEq, false_iff, not_and]
      intro _ hall
      exact hall missing hlack
    | none =>
      have hall (f : Field) : ¬(!isOptional f && (members.lookup f.name).isNone) = true :=
        List.find?_eq_none.mp hmissing f f.mem_all
      exact ⟨fun h => ⟨h, hall⟩, And.left⟩

end Profile

end ClosedLoop
