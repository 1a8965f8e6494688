import ClosedLoop.Proofs.Double.Order
import ClosedLoop.Proofs.Json.Order
import ClosedLoop.Proofs.Json.Reading

namespace ClosedLoop.Json

/-!
# What is read of a printed value

A printed value is read as the value itself, but for its doubles, which are read as what the reader
makes of their text, and for the members of its objects, which come into the order of their names.
Both ways of printing put the same tokens down, with different blanks between them.

* `Value.reread` — what a printed value is read as;
* `Value.Writable` — the values that the reader takes: whole numbers within 64 bits, and not too
  many brackets inside each other;
* `denotes_chars`, `denotes_prettyChars` — both printed forms stand for the same value;
* `parse?_compact`, `parse?_pretty` — **both printed forms of a value are read as its
  `Value.reread`**.
-/

/-! ### Values as they are read -/

/-- What a printed number is read as. -/
def Number.reread (n : Number) : Value :=
  match number? n.chars with
  | some (m, _) => .number m
  | none => .null

mutual

/-- What a printed value is read as. -/
def Value.reread : Value → Value
  | .null => .null
  | .bool b => .bool b
  | .number n => n.reread
  | .text s => .text s
  | .array items => .array (rereadItems items)
  | .object members => .ofMembers (rereadMembers members)

/-- What printed items are read as. -/
def rereadItems : List Value → List Value
  | [] => []
  | v :: rest => v.reread :: rereadItems rest

/-- What the values of printed members are read as. -/
def rereadMembers : List (String × Value) → List (String × Value)
  | [] => []
  | (name, v) :: rest => (name, v.reread) :: rereadMembers rest

end

/-- Items are read one by one. -/
theorem rereadItems_eq (items : List Value) : rereadItems items = items.map Value.reread := by
  induction items with
  | nil => rfl
  | cons v rest ih => rw [rereadItems, ih, List.map_cons]

/-- A member with its value as it is read. -/
def rereadMember (m : String × Value) : String × Value := (m.1, m.2.reread)

/-- Members are read one by one. -/
theorem rereadMembers_eq (members : Members) :
    rereadMembers members = members.map rereadMember := by
  induction members with
  | nil => rfl
  | cons m rest ih => rw [rereadMembers, ih, List.map_cons, rereadMember]

/-- The values that the reader takes with so many brackets inside each other at most. -/
inductive Value.Writable : Nat → Value → Prop where
  | null {depth : Nat} : Writable depth .null
  | bool {depth : Nat} (b : Bool) : Writable depth (.bool b)
  | whole {depth : Nat} {i : Int} (hlow : -(2 ^ 63) ≤ i) (hhigh : i < 2 ^ 64) :
    Writable depth (.number (.whole i))
  | double {depth : Nat} (x : Float) : Writable depth (.number (.double x))
  | text {depth : Nat} (s : String) : Writable depth (.text s)
  | array {depth : Nat} {items : List Value} (h : ∀ v ∈ items, Writable depth v) :
    Writable (depth + 1) (.array items)
  | object {depth : Nat} {members : Members} (h : ∀ m ∈ members, Writable depth m.2) :
    Writable (depth + 1) (.object members)

/-- A natural number of 64 bits can be written. -/
theorem Value.Writable.ofNat {depth n : Nat} (h : n < 2 ^ 64) : (Value.ofNat n).Writable depth :=
  .whole (by omega) (by omega)

/-! ### Numbers -/

/-- What is read in front of anything is read of the number alone. -/
theorem number?_of_append {n m : Number}
    (h : ∀ more, Apart more → number? (n.chars ++ more) = some (m, more)) :
    n.reread = .number m := by
  have hall := h [] apart_nil
  rw [List.append_nil] at hall
  rw [Number.reread, hall]

/-- A whole number within 64 bits is read as it is. -/
theorem reread_whole {i : Int} (hlow : -(2 ^ 63) ≤ i) (hhigh : i < 2 ^ 64) :
    (Number.whole i).reread = .number (.whole i) :=
  number?_of_append fun _ hmore => number?_intChars hlow hhigh hmore

/-- A natural number of 64 bits is read as it was printed. -/
theorem reread_ofNat {n : Nat} (h : n < 2 ^ 64) : (Value.ofNat n).reread = .ofNat n :=
  reread_whole (by omega) (by omega)

/-- What is not finite is read as nothing, and nothing else is. -/
theorem reread_double_eq_null_iff {x : Float} :
    (Value.ofFloat x).reread = .null ↔ x.isFinite = false := by
  show (Number.double x).reread = .null ↔ _
  rw [← Bool.not_eq_true, Double.isFinite_iff_exact]
  constructor
  -- A finite double is printed as a number, and the others are printed as nothing.
  · rintro hnull ⟨isNegative, units, hexact⟩
    obtain ⟨y, hy⟩ := number?_double hexact
    rw [number?_of_append hy] at hnull
    cases hnull
  · intro h
    have hchars : (Number.double x).chars = "null".toList :=
      chars_of_not_finite fun isNegative units hexact => h ⟨isNegative, units, hexact⟩
    rw [Number.reread, hchars]
    rfl

/-- A finite double is read as a double. -/
theorem exists_reread_double {x : Float} (h : x.isFinite = true) :
    ∃ y, (Value.ofFloat x).reread = .ofFloat y := by
  obtain ⟨isNegative, units, hexact⟩ := Double.isFinite_iff_exact.mp h
  obtain ⟨y, hy⟩ := number?_double hexact
  exact ⟨y, number?_of_append hy⟩

/-! ### Texts -/

variable {depth : Nat}

/-- A token alone stands for its value. -/
theorem Denotes.scalar {cs : List Char} {v : Value} (h : Lexes cs [.scalar v]) :
    Denotes depth cs v :=
  ⟨_, h, .scalar depth v⟩

/-- A whole number stands for what it is read as. -/
theorem denotes_whole {i : Int} (hlow : -(2 ^ 63) ≤ i) (hhigh : i < 2 ^ 64) :
    Denotes depth (Number.whole i).chars (Number.whole i).reread := by
  rw [reread_whole hlow hhigh]
  exact .scalar (lexes_number fun _ hmore => number?_intChars hlow hhigh hmore)

/-- A double stands for what it is read as. -/
theorem denotes_double (x : Float) :
    Denotes depth (Number.double x).chars (Number.double x).reread := by
  by_cases h : ∃ isNegative units, Binary.exact x = .finite isNegative units
  · obtain ⟨isNegative, units, hexact⟩ := h
    obtain ⟨y, hy⟩ := number?_double hexact
    rw [number?_of_append hy]
    exact .scalar (lexes_number hy)
  · have hchars : (Number.double x).chars = "null".toList :=
      chars_of_not_finite fun isNegative units hexact => h ⟨isNegative, units, hexact⟩
    rw [Number.reread, hchars]
    exact .scalar lexes_null

/-- Items that stand for their values, each printed on its own. -/
theorem forall₂_items {print : Value → List Char} {items : List Value}
    (h : ∀ v ∈ items, Denotes depth (print v) v.reread) :
    List.Forall₂ (Denotes depth) (items.map print) (rereadItems items) := by
  rw [rereadItems_eq, List.forall₂_map_left_iff, List.forall₂_map_right_iff, List.forall₂_same]
  exact h

/-- Members that stand for their values, each printed on its own. -/
theorem forall₂_members {print : String × Value → List Char} {members : Members}
    (h : ∀ m ∈ members, DenotesMember depth (print m) (m.1, m.2.reread)) :
    List.Forall₂ (DenotesMember depth) (members.map print) (rereadMembers members) := by
  rw [rereadMembers_eq, List.forall₂_map_left_iff, List.forall₂_map_right_iff, List.forall₂_same]
  exact h

/-! ### One line -/

/-- Items are printed one by one. -/
theorem itemsChars_eq (items : List Value) : itemsChars items = items.map Value.chars := by
  induction items with
  | nil => rfl
  | cons v rest ih => rw [itemsChars, ih, List.map_cons]

/-- A member on one line. -/
def memberChars (m : String × Value) : List Char := stringChars m.1 ++ ':' :: m.2.chars

/-- Members are printed one by one. -/
theorem membersChars_eq (members : Members) : membersChars members = members.map memberChars := by
  induction members with
  | nil => rfl
  | cons m rest ih => rw [membersChars, ih, List.map_cons, memberChars]

/-- There are no blanks on one line. -/
theorem no_blanks : ∀ c ∈ ([] : List Char), isBlank c = true := List.forall_mem_nil _

/-- **A value on one line stands for what it is read as.** -/
theorem denotes_chars {v : Value} (h : v.Writable depth) : Denotes depth v.chars v.reread := by
  -- Scalars are tokens; brackets are those of their parts, without blanks between them.
  induction h with
  | null => exact .scalar lexes_null
  | bool b => exact .scalar (lexes_bool b)
  | whole hlow hhigh => exact denotes_whole hlow hhigh
  | double x => exact denotes_double x
  | text s => exact .scalar (lexes_text s)
  | array _ ih =>
    have hitems := Denotes.array (forall₂_items ih) no_blanks no_blanks no_blanks
    rw [List.nil_append, List.append_nil] at hitems
    rw [Value.chars, itemsChars_eq, Value.reread]
    exact hitems
  | object _ ih =>
    have hparts : ∀ m ∈ _, DenotesMember _ (memberChars m) (m.1, m.2.reread) :=
      fun m hm => ⟨[], m.2.chars, rfl, no_blanks, ih m hm⟩
    have hmembers := Denotes.object (forall₂_members hparts) no_blanks no_blanks no_blanks
    rw [List.nil_append, List.append_nil] at hmembers
    rw [Value.chars, membersChars_eq, Value.reread]
    exact hmembers

/-- **A value printed on one line is read as its `reread`.** -/
theorem parse?_compact {v : Value} (h : v.Writable maxDepth) :
    parse? (compact v) = some v.reread := by
  rw [parse?, compact, String.toList_ofList]
  exact (denotes_chars h).parseChars?

/-! ### Several lines -/

/-- Items over several lines are printed one by one. -/
theorem prettyItems_eq (level : Nat) (items : List Value) :
    prettyItems level items = items.map fun v => v.prettyChars level := by
  induction items with
  | nil => rfl
  | cons v rest ih => rw [prettyItems, ih, List.map_cons]

/-- A member at a level. -/
def prettyMember (level : Nat) (m : String × Value) : List Char :=
  stringChars m.1 ++ ':' :: ' ' :: m.2.prettyChars level

/-- Members over several lines are printed one by one. -/
theorem prettyMembers_eq (level : Nat) (members : Members) :
    prettyMembers level members = members.map (prettyMember level) := by
  induction members with
  | nil => rfl
  | cons m rest ih => rw [prettyMembers, ih, List.map_cons, prettyMember]

/-- A line break is blank. -/
theorem isBlank_lineBreak (level : Nat) : ∀ c ∈ lineBreak level, isBlank c = true := by
  intro c hc
  rcases List.mem_cons.mp hc with rfl | hc
  · rfl
  · rw [List.eq_of_mem_replicate hc]
    rfl

/-- A bracket around parts is opened and closed with blanks inside, if there are parts. -/
theorem bracketed_eq (opening closing : Char) (level : Nat) (parts : List (List Char)) :
    ∃ blanks before after, bracketed opening closing level parts =
      opening :: (before ++ separated (',' :: blanks) parts ++ after ++ [closing]) ∧
        (∀ c ∈ blanks, isBlank c = true) ∧ (∀ c ∈ before, isBlank c = true) ∧
          ∀ c ∈ after, isBlank c = true := by
  cases parts with
  | nil => exact ⟨[], [], [], rfl, no_blanks, no_blanks, no_blanks⟩
  | cons part rest =>
    exact ⟨lineBreak (level + 1), lineBreak (level + 1), lineBreak level, rfl,
      isBlank_lineBreak _, isBlank_lineBreak _, isBlank_lineBreak _⟩

/-- **A value over several lines stands for the same.** -/
theorem denotes_prettyChars {v : Value} (h : v.Writable depth) (level : Nat) :
    Denotes depth (v.prettyChars level) v.reread := by
  -- The same cases with line breaks for blanks, and parts one level further in.
  induction h generalizing level with
  | null => exact .scalar lexes_null
  | bool b => exact .scalar (lexes_bool b)
  | whole hlow hhigh => exact denotes_whole hlow hhigh
  | double x => exact denotes_double x
  | text s => exact .scalar (lexes_text s)
  | array _ ih =>
    rw [Value.prettyChars, prettyItems_eq, Value.reread]
    obtain ⟨blanks, before, after, heq, hblanks, hbefore, hafter⟩ := bracketed_eq '[' ']' level _
    rw [heq]
    exact .array (forall₂_items fun v hv => ih v hv (level + 1)) hblanks hbefore hafter
  | object _ ih =>
    rw [Value.prettyChars, prettyMembers_eq, Value.reread]
    obtain ⟨blanks, before, after, heq, hblanks, hbefore, hafter⟩ :=
      bracketed_eq '\x7b' '\x7d' level _
    rw [heq]
    refine .object (forall₂_members fun m hm => ?_) hblanks hbefore hafter
    exact ⟨[' '], m.2.prettyChars (level + 1), rfl, List.forall_mem_singleton.mpr rfl,
      ih m hm (level + 1)⟩

/-- **A value printed over several lines is read alike.** -/
theorem parse?_pretty {v : Value} (h : v.Writable maxDepth) :
    parse? (pretty v) = some v.reread := by
  rw [parse?, pretty, String.toList_ofList]
  exact (denotes_prettyChars h 0).parseChars?

/-- Both printed forms of a value are read alike. -/
theorem parse?_printed {v : Value} {text : String} (h : v.Writable maxDepth)
    (htext : text ∈ [compact v, pretty v]) : parse? text = some v.reread := by
  simp only [List.mem_cons, List.not_mem_nil, or_false] at htext
  rcases htext with rfl | rfl
  · exact parse?_compact h
  · exact parse?_pretty h

/-! ### Members as they are read -/

/-- **Every member of a printed object is found by its name, unless another one has the same name
and another value.** -/
theorem exists_reread_object (ms : Members) :
    ∃ members, (Value.object ms).reread = .object members ∧ Ordered members ∧
      ∀ name v, (name, v) ∈ ms → (∀ m ∈ ms, m.1 = name → m.2 = v) →
        members.lookup name = some v.reread := by
  refine ⟨_, rfl, ordered_sortMembers _, fun name v hmem hunique => ?_⟩
  rw [rereadMembers_eq]
  refine lookup_sortMembers (List.mem_map_of_mem (f := rereadMember) hmem) ?_
  rw [List.forall_mem_map]
  intro m hm hname
  rw [rereadMember, hunique m hm hname]

/-- An object whose members were put into order is read back with each of them. -/
theorem exists_reread_ofMembers {ms : Members} (hnames : (ms.map Prod.fst).Nodup) :
    ∃ members, (Value.ofMembers ms).reread = .object members ∧ Ordered members ∧
      ∀ m ∈ ms, members.lookup m.1 = some m.2.reread := by
  obtain ⟨members, heq, hordered, hlookup⟩ := exists_reread_object (sortMembers ms)
  refine ⟨members, heq, hordered, fun m hm => ?_⟩
  have hmem := (mem_sortMembers_iff hnames).mpr hm
  exact hlookup m.1 m.2 hmem fun n hn hname =>
    congrArg Prod.snd (eq_of_nodup_names (ordered_sortMembers ms).nodup_names hn hmem hname)

/-- An object of members that can be written can be written. -/
theorem Value.Writable.ofMembers {depth : Nat} {ms : Members} (h : ∀ m ∈ ms, m.2.Writable depth) :
    (Value.ofMembers ms).Writable (depth + 1) :=
  .object fun m hm => h m (mem_of_mem_sortMembers hm)

end ClosedLoop.Json
