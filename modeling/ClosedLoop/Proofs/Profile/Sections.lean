import ClosedLoop.Proofs.Json.Order
import ClosedLoop.Proofs.Profile.Decoders
import ClosedLoop.Proofs.Profile.FirstCause
import ClosedLoop.Setup.ProfileSource
import Mathlib.Data.List.Infix

namespace ClosedLoop

open Json (Value Members Ordered)

/-!
# Which sections count, and which error wins

Sections are read one after the other, and the options of a section in the order of the fields. The
first thing that cannot be used decides the error. Only when all sections have been read are the
profiles checked as a set.

* `FirstFault` — the fault of the first faulty element of a list;
* `OptionFault`, `SectionFault` — what makes options and sections unusable, without the readers;
* `Section.datum_error_iff`, `Section.profileOfOptions_error_iff`, `Section.profile_error_iff` — the
  readers fail with these faults;
* `Section.counted`, `Section.profiles_ofMembers` — the sections that count, and that these are read
  in order;
* `Section.load_ok_iff`, `Section.load_error_iff` — what loading gives;
* `Section.load_sections` — **only the sections that count matter, they are read in the order of
  their titles, and the first fault wins, an unusable section before an invalid profile**;
* `ProfileSource.load_congr`, `ProfileSource.loadPlain_file` — the same of the texts of files.
-/

/-! ### The first fault -/

/-- The fault of the first faulty element of a list. -/
def FirstFault {α ε : Type} (fault : α → ε → Prop) (l : List α) (e : ε) : Prop :=
  ∃ before a after, l = before ++ a :: after ∧ fault a e ∧ ∀ b ∈ before, ∀ d, ¬ fault b d

section FirstFault

variable {α β ε : Type} {fault : α → ε → Prop} {e : ε}

/-- Nothing is at fault in an empty list. -/
theorem firstFault_nil : ¬ FirstFault fault [] e := by
  rintro ⟨before, a, after, hsplit, -⟩
  cases before <;> cases hsplit

/-- The first fault is that of the first item, or of the others if the first is in order. -/
theorem firstFault_cons {a : α} {l : List α} :
    FirstFault fault (a :: l) e ↔ fault a e ∨ (∀ d, ¬ fault a d) ∧ FirstFault fault l e := by
  refine exists_split_cons.trans (or_congr (by simp) ?_)
  simp only [List.forall_mem_cons]
  constructor
  · rintro ⟨before, b, after, hsplit, hb, ha, hbefore⟩
    exact ⟨ha, before, b, after, hsplit, hb, hbefore⟩
  · rintro ⟨ha, before, b, after, hsplit, hb, hbefore⟩
    exact ⟨before, b, after, hsplit, hb, ha, hbefore⟩

/-- Reading a list fails with the first element that cannot be read. -/
theorem mapM_error_iff {f : α → Except ε β} {l : List α} :
    l.mapM f = .error e ↔ FirstFault (fun a d => f a = .error d) l e := by
  induction l with
  | nil => simp [List.mapM_nil, pure, Except.pure, firstFault_nil]
  | cons a l ih =>
    rw [List.mapM_cons, bind_eq_error_iff, firstFault_cons]
    simp only [bind_eq_error_iff, ih, pure, Except.pure, reduceCtorEq, and_false, exists_false,
      or_false, exists_and_right, not_error_iff, ← ne_eq]

end FirstFault

/-! ### What cannot be used -/

/-- The value cannot be used for the field. -/
def Field.Unfit : Field → Value → OptionFlaw → Prop
  | .clientId, v, flaw => (∀ n, v.asNat? = some n → UInt32.size ≤ n) ∧ flaw = .notUnsigned v
  | .numInstances, v, flaw => (∀ n, v.asNat? = some n → UInt64.size ≤ n) ∧ flaw = .notUnsigned v
  | .clientName, _, _ => False
  | .distribution, v, flaw => ∃ d, Distribution.ofJson v = .error d ∧ flaw = .undecodable d
  | _, v, flaw => (∀ n, v ≠ .number n) ∧ flaw = .notNumber v

/-- The option is missing although it must be there, or cannot be used. -/
def OptionFault (title : String) (options : Members) (f : Field) (e : ConfigError) : Prop :=
  match options.lookup f.name with
  | none => Profile.isOptional f = false ∧ e = .missingOption title f
  | some v => ∃ flaw, f.Unfit v flaw ∧ e = .invalidOption title f flaw

/-- The section is no table, or this is the fault of its first offending option. -/
def SectionFault (m : String × Value) (e : ConfigError) : Prop :=
  match m.2 with
  | .object options => FirstFault (OptionFault m.1 options) Field.all e
  | _ => e = .notATable m.1

namespace Section

variable {title : String} {options : Members} {f : Field} {e : ConfigError}

/-- When a whole number is refused, and why. -/
theorem unsigned_error_iff (limit : Nat) :
    unsigned title options limit f = .error e ↔
      match options.lookup f.name with
      | none => e = .missingOption title f
      | some v =>
        (∀ n, v.asNat? = some n → limit ≤ n) ∧ e = .invalidOption title f (.notUnsigned v) := by
  rw [unsigned, option]
  cases options.lookup f.name with
  | none => simp [bind, Except.bind, eq_comm]
  | some v =>
    simp only [bind, Except.bind]
    cases v.asNat? with
    | none => simp [eq_comm]
    | some n =>
      by_cases hlt : n < limit
      · simp [hlt, Nat.not_le_of_lt hlt]
      · simp [hlt, eq_comm, Nat.le_of_not_lt hlt]

/-- What is not a number is not read as a float. -/
theorem asFloat?_eq_none_iff {v : Value} : v.asFloat? = none ↔ ∀ n, v ≠ .number n := by
  cases v with
  | number n => cases n <;> simp [Value.asFloat?]
  | _ => simp [Value.asFloat?]

/-- When a number is refused, and why. -/
theorem number_error_iff :
    number title options f = .error e ↔
      match options.lookup f.name with
      | none => e = .missingOption title f
      | some v => (∀ n, v ≠ .number n) ∧ e = .invalidOption title f (.notNumber v) := by
  rw [number, option]
  cases options.lookup f.name with
  | none => simp [bind, Except.bind, eq_comm]
  | some v =>
    simp only [bind, Except.bind, ← asFloat?_eq_none_iff]
    cases v.asFloat? with
    | none => simp [eq_comm]
    | some n => simp

/-- A text is refused if it is missing only. -/
theorem text_error_iff :
    text title options f = .error e ↔
      options.lookup f.name = none ∧ e = .missingOption title f := by
  rw [text, option]
  cases options.lookup f.name with
  | none => simp [bind, Except.bind, eq_comm]
  | some v =>
    simp only [bind, Except.bind]
    cases v <;> simp

/-- The error of an option is its fault. -/
theorem datum_error_iff : datum title options f = .error e ↔ OptionFault title options f e := by
  -- Only numbers without a default are read alike.
  rw [OptionFault]
  cases f
  case clientId | numInstances =>
    rw [datum, map_eq_error_iff, unsigned_error_iff]
    cases options.lookup _ <;> simp [Field.Unfit, Profile.isOptional]
  case clientName =>
    rw [datum, map_eq_error_iff, text_error_iff]
    cases options.lookup _ <;> simp [Field.Unfit, Profile.isOptional]
  case monitorInterval =>
    rw [datum, map_eq_error_iff, monitorInterval]
    cases hlookup : options.lookup Field.monitorInterval.name with
    | none => simp [Profile.isOptional]
    | some v => simp [number_error_iff, hlookup, Field.Unfit]
  case distribution =>
    rw [datum, map_eq_error_iff, distribution]
    cases options.lookup Field.distribution.name with
    | none => simp [Profile.isOptional]
    | some v => cases hread : Distribution.ofJson v <;> simp [Field.Unfit, hread, eq_comm]
  all_goals
    simp only [datum, map_eq_error_iff, number_error_iff]
    cases options.lookup _ <;> simp [Field.Unfit, Profile.isOptional]

/-- The error of a section is that of its first option at fault. -/
theorem profileOfOptions_error_iff :
    profileOfOptions title options = .error e ↔
      FirstFault (OptionFault title options) Field.all e := by
  have hchain : profileOfOptions title options = .error e ↔
      FirstFault (fun f d => datum title options f = .error d) Field.all e := by
    simp only [profileOfOptions, bind_eq_error_iff, Field.all, firstFault_cons, firstFault_nil,
      datum, map_eq_error_iff, pure, Except.pure, reduceCtorEq, exists_and_right, ← not_error_iff,
      ne_eq, and_false, exists_false, or_false]
  rw [hchain]
  simp only [datum_error_iff]

/-- The error of a section is its fault. -/
theorem profile_error_iff {m : String × Value} :
    profile ⟨m.1, m.2⟩ = .error e ↔ SectionFault m e := by
  rw [SectionFault, profile]
  cases m.2 with
  | object options => exact profileOfOptions_error_iff
  | _ => exact ⟨fun h => (Except.error.inj h).symm, fun h => congrArg Except.error h.symm⟩

/-! ### Sections that count -/

/-- A fragment occurs in a text if the text contains it. -/
theorem occursIn_iff {fragment : List Char} (cs : List Char) :
    occursIn fragment cs = true ↔ fragment <:+: cs := by
  induction cs with
  | nil => rw [occursIn, List.isEmpty_iff, List.infix_nil]
  | cons c rest ih =>
    rw [occursIn, Bool.or_eq_true, List.isPrefixOf_iff_prefix, ih, List.infix_cons_iff]

/-- The sections of a map whose titles contain the fragment. -/
def counted (fragment : String) (members : Members) : Members :=
  members.filter fun m => fragment.toList <:+: m.1.toList

/-- The section is a table, and the profile has in every field what the option is read as. -/
def Describes (m : String × Value) (p : Profile) : Prop :=
  ∃ options, m.2 = .object options ∧ ∀ f, datum m.1 options f = .ok (p.get f)

/-- A section is read as the profile that it describes. -/
theorem profile_ok_iff {m : String × Value} {p : Profile} :
    profile ⟨m.1, m.2⟩ = .ok p ↔ Describes m p := by
  rw [Describes, profile]
  cases m.2 with
  | object options => simp [profileOfOptions_ok_iff]
  | _ => simp

/-- The sections that count are read in the order of the map. -/
theorem profiles_ofMembers (fragment : String) (members : Members) :
    profiles fragment (ofMembers members) =
      (counted fragment members).mapM fun m => profile ⟨m.1, m.2⟩ := by
  have hcounted : (ofMembers members).filter (isMatch fragment) =
      ofMembers (counted fragment members) := by
    rw [ofMembers, List.filter_map, ofMembers, counted]
    congr 1
    refine List.filter_congr fun m _ => ?_
    rw [Bool.eq_iff_iff, decide_eq_true_iff]
    exact occursIn_iff _
  rw [profiles, hcounted, ofMembers, List.mapM_map]
  rfl

variable {fragment : String} {members : Members}

/-- Maps with the same sections that count are the same as far as they count. -/
theorem counted_congr {others : Members} (h : Ordered members) (hothers : Ordered others)
    (hsame : ∀ m, fragment.toList <:+: m.1.toList → (m ∈ members ↔ m ∈ others)) :
    counted fragment members = counted fragment others := by
  refine Ordered.ext (h.filter _) (hothers.filter _) fun m => ?_
  rw [counted, counted, List.mem_filter, List.mem_filter, decide_eq_true_iff, and_congr_left_iff]
  exact hsame m

/-- Sections are read as the profiles that they describe one by one. -/
theorem profiles_ok_iff {ps : List Profile} :
    profiles fragment (ofMembers members) = .ok ps ↔
      List.Forall₂ Describes (counted fragment members) ps := by
  rw [profiles_ofMembers, mapM_ok_iff]
  simp only [profile_ok_iff]

/-- The error of the sections is the first fault. -/
theorem profiles_error_iff :
    profiles fragment (ofMembers members) = .error e ↔
      FirstFault SectionFault (counted fragment members) e := by
  rw [profiles_ofMembers, mapM_error_iff]
  simp only [profile_error_iff]

/-- Loading succeeds with the profiles of the sections that count if they pass as a set. -/
theorem load_ok_iff {ps : List Profile} :
    (load fragment (ofMembers members)).1 = .ok ps ↔
      List.Forall₂ Describes (counted fragment members) ps ∧ validateAll ps = .ok () := by
  rw [← profiles_ok_iff, load]
  cases profiles fragment (ofMembers members) with
  | error d => simp
  | ok found =>
    simp only [map_eq_ok_iff, Except.ok.injEq]
    constructor
    · rintro ⟨_, hvalid, rfl⟩
      exact ⟨rfl, hvalid⟩
    · rintro ⟨rfl, hvalid⟩
      exact ⟨(), hvalid, rfl⟩

/-- Loading fails with the fault of the first unusable section, and without one with the error of
the set. -/
theorem load_error_iff :
    (load fragment (ofMembers members)).1 = .error e ↔
      FirstFault SectionFault (counted fragment members) e ∨
        ∃ ps, List.Forall₂ Describes (counted fragment members) ps ∧ validateAll ps = .error e := by
  simp only [← profiles_error_iff, ← profiles_ok_iff]
  rw [load]
  cases profiles fragment (ofMembers members) with
  | error d => simp
  | ok found => simp [map_eq_error_iff]

/-- Loading warns if no section counts. -/
theorem load_warnings :
    (load fragment (ofMembers members)).2 =
      if counted fragment members = [] then [noneFoundWarning] else [] := by
  rw [load]
  cases hprofiles : profiles fragment (ofMembers members) with
  | error d =>
    obtain ⟨before, m, after, hsplit, -⟩ := profiles_error_iff.mp hprofiles
    rw [if_neg (by simp [hsplit])]
  | ok found =>
    have hlength := (profiles_ok_iff.mp hprofiles).length_eq
    simp only [List.isEmpty_iff, ← List.length_eq_zero_iff, hlength]

/-- Maps with the same sections that count load alike. -/
theorem load_congr {others : Members} (h : Ordered members) (hothers : Ordered others)
    (hsame : ∀ m, fragment.toList <:+: m.1.toList → (m ∈ members ↔ m ∈ others)) :
    load fragment (ofMembers members) = load fragment (ofMembers others) := by
  rw [load, load, profiles_ofMembers, profiles_ofMembers, counted_congr h hothers hsame]

/-- **Loading is exact about which sections count, about their order and about the error.** Maps
that agree in the sections whose title contains the fragment load alike. These sections stand in the
order of the bytes of their titles, and loading succeeds exactly with the profiles they describe one
by one, if these pass as a set. Otherwise the error is that of the first section of them that is no
table or has an unusable option, and there of the first such option in the order of the fields; only
if there is none, it is the error of the set. The only warning is that no section counts. -/
theorem load_sections (fragment : String) (members : Members) (h : Ordered members) :
    (∀ others, Ordered others →
      (∀ m, fragment.toList <:+: m.1.toList → (m ∈ members ↔ m ∈ others)) →
        load fragment (ofMembers members) = load fragment (ofMembers others)) ∧
    (counted fragment members).Pairwise (fun m n => Json.bytes m.1 < Json.bytes n.1) ∧
    (∀ ps, (load fragment (ofMembers members)).1 = .ok ps ↔
      List.Forall₂ Describes (counted fragment members) ps ∧ validateAll ps = .ok ()) ∧
    (∀ e, (load fragment (ofMembers members)).1 = .error e ↔
      FirstFault SectionFault (counted fragment members) e ∨
        ∃ ps, List.Forall₂ Describes (counted fragment members) ps ∧
          validateAll ps = .error e) ∧
    (load fragment (ofMembers members)).2 =
      if counted fragment members = [] then [noneFoundWarning] else [] := by
  exact ⟨fun others hothers hsame => load_congr h hothers hsame, h.filter _,
    fun ps => load_ok_iff, fun e => load_error_iff, load_warnings⟩

/-- Two unusable sections among others: one lacks options, the other one is no table. -/
def faultySections : Members :=
  [("Gateway", .null), ("hbase_client_get", .object [("client_id", .ofNat 1)]),
    ("hbase_client_scan", .null), ("zone", .object [])]

/-- The sections of the map that do not count may as well be missing, and the error is that of the
first section that counts: it has an id and lacks the name. -/
theorem load_sections_faulty :
    Ordered faultySections ∧ Ordered (counted "client" faultySections) ∧
      load "client" (ofMembers faultySections) =
        load "client" (ofMembers (counted "client" faultySections)) ∧
      (load "client" (ofMembers faultySections)).1 =
        .error (.missingOption "hbase_client_get" .clientName) := by
  have hordered : Ordered faultySections := by decide +kernel
  obtain ⟨halike, hcounted, -, herror, -⟩ := load_sections "client" faultySections hordered
  refine ⟨hordered, hcounted, halike _ hcounted fun m hm => ?_, (herror _).mpr (.inl ?_)⟩
  · rw [counted, List.mem_filter, decide_eq_true_iff, and_iff_left hm]
  · have hid (d : ConfigError) :
        ¬ OptionFault "hbase_client_get" [("client_id", .ofNat 1)] .clientId d := by
      -- The id is a number of the right size, so the first fault is the name.
      rintro ⟨flaw, ⟨hlarge, -⟩, -⟩
      exact absurd (hlarge 1 rfl) (by decide)
    have hname : SectionFault ("hbase_client_get", .object [("client_id", .ofNat 1)])
        (.missingOption "hbase_client_get" .clientName) :=
      ⟨[.clientId], .clientName, Field.all.drop 2, rfl, ⟨rfl, rfl⟩, by simpa using hid⟩
    have hfound : counted "client" faultySections =
        [("hbase_client_get", .object [("client_id", .ofNat 1)]), ("hbase_client_scan", .null)] :=
      rfl
    exact ⟨[], _, _, hfound, hname, by simp⟩

end Section

/-! ### Files -/

namespace ProfileSource

open Section (counted Describes noneFoundWarning)

variable {s : ProfileSource} {read : String → Except FileError String} {path text : String}
  {members : Members}

/-- A file with sections is loaded as its sections are, in the order in which they are read. -/
theorem loadPlain_eq (hpath : s.path = some path) (hread : read path = .ok text)
    (hparse : Json.parseObject text = .ok members) :
    s.loadPlain read =
      ((Section.load s.fragment (Section.ofMembers members)).1.mapError .unusable,
        (Section.load s.fragment (Section.ofMembers members)).2) := by
  rw [loadPlain, hpath]
  simp only [hread, hparse]

/-- **Files load alike if their sections that count are the same**, whatever else the files hold and
in whatever order: the texts have been read as maps, which are in order. -/
theorem load_congr {other otherText : String} {others : Members}
    {read' : String → Except FileError String} (hpath : s.path = some path)
    (hread : read path = .ok text) (hparse : Json.parseObject text = .ok members)
    (hread' : read' other = .ok otherText) (hparse' : Json.parseObject otherText = .ok others)
    (hsame : ∀ m, s.fragment.toList <:+: m.1.toList → (m ∈ members ↔ m ∈ others)) :
    s.load read = { s with path := some other }.load read' := by
  have hplain : s.loadPlain read = { s with path := some other }.loadPlain read' := by
    rw [loadPlain_eq hpath hread hparse,
      loadPlain_eq (s := { s with path := some other }) rfl hread' hparse',
      Section.load_congr (Json.parseObject_ordered hparse) (Json.parseObject_ordered hparse') hsame]
  rw [load, load, hplain]

/-- **A file gives the profiles that its sections describe, or the first fault.** The sections of
the text that count are read in the order of the bytes of their titles. -/
theorem loadPlain_file (hpath : s.path = some path) (hread : read path = .ok text)
    (hparse : Json.parseObject text = .ok members) :
    (counted s.fragment members).Pairwise (fun m n => Json.bytes m.1 < Json.bytes n.1) ∧
    (∀ ps, (s.loadPlain read).1 = .ok ps ↔
      List.Forall₂ Describes (counted s.fragment members) ps ∧ validateAll ps = .ok ()) ∧
    (∀ e, (s.loadPlain read).1 = .error (.unusable e) ↔
      FirstFault SectionFault (counted s.fragment members) e ∨
        ∃ ps, List.Forall₂ Describes (counted s.fragment members) ps ∧
          validateAll ps = .error e) ∧
    (s.loadPlain read).2 = if counted s.fragment members = [] then [noneFoundWarning] else [] := by
  rw [loadPlain_eq hpath hread hparse]
  refine ⟨(Json.parseObject_ordered hparse).filter _, fun ps => ?_, fun e => ?_,
    Section.load_warnings⟩
  · rw [← Section.load_ok_iff]
    cases (Section.load s.fragment (Section.ofMembers members)).1 <;> simp [Except.mapError]
  · rw [← Section.load_error_iff]
    cases (Section.load s.fragment (Section.ofMembers members)).1 <;> simp [Except.mapError]

end ProfileSource

end ClosedLoop
