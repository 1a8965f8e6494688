import ClosedLoop.Command.Execution
import ClosedLoop.Proofs.Json.RoundTrip
import ClosedLoop.Proofs.Profile.Conditions
import ClosedLoop.Proofs.Profile.Sections

namespace ClosedLoop

open Json (Value Members Ordered)

/-!
# Profiles survive JSON

A profile is printed as one object. The decoder of records finds every field in it again, wherever
the member of the field stands and whatever other members there are, and so does the reader of
sections. All depends on the doubles: not every double is read as it was printed, but a profile is
read as it was printed if its doubles are.

* `Json.Survives`, `Profile.doubles` — doubles that are read as they are printed, and those of a
  profile;
* `Profile.value`, `Profile.toJson_eq` — the values of a printed profile, field by field;
* `Profile.decode_value_reread` — the value of a field is decoded to what the profile has there;
* `Profile.decodeItems_ok` — values in order are decoded to the profile that has them;
* `Section.describes_reread` — a printed profile describes itself as a section;
* `Profile.json_roundTrip` — **profiles survive JSON as objects, as lists and as sections**.
-/

/-! ### Doubles -/

/-- The double is read as it is printed. -/
def Json.Survives (x : Float) : Prop := parse? (compact (.ofFloat x)) = some (.ofFloat x)

/-- A double that survives being printed is read again as it was. -/
theorem Json.Survives.reread {x : Float} (h : Survives x) :
    (Value.ofFloat x).reread = .ofFloat x := by
  have hread : parse? (compact (.ofFloat x)) = some (Value.ofFloat x).reread :=
    parse?_compact (.double x)
  exact Option.some.inj (hread.symm.trans h)

/-- The double that a value is. -/
def Json.double? : Value → Option Float
  | .number (.double x) => some x
  | _ => none

/-- What is read as a double is the number that shows it. -/
theorem Json.double?_eq_some_iff {v : Value} {x : Float} : double? v = some x ↔ v = .ofFloat x := by
  cases v with
  | number n => cases n <;> simp [double?, Value.ofFloat]
  | _ => simp [double?, Value.ofFloat]

instance (x : Float) : Decidable (Json.Survives x) :=
  decidable_of_iff ((Json.parse? (Json.compact (.ofFloat x))).bind Json.double? = some x) (by
    simp only [Json.Survives, Option.bind_eq_some_iff, Json.double?_eq_some_iff]
    exact exists_eq_right)

/-- The doubles of a distribution. -/
def Distribution.doubles : Distribution → List Float
  | .uniform spread => [spread]
  | _ => []

/-- The doubles of a profile. -/
def Profile.doubles (p : Profile) : List Float :=
  [p.rpcSize, p.replySize, p.rpcTime, p.memUpdateSize, p.logAppendSize, p.lookupTime, p.readSize,
    p.shortCircuitRatio, p.thinkTime, p.monitorInterval] ++ p.distribution.doubles

/-- Means are finite. -/
theorem IsMean.isFinite {x : Float} (h : IsMean x) : x.isFinite = true := by
  obtain ⟨negative, units, hexact, -⟩ := h
  exact Double.isFinite_iff_exact.mpr ⟨negative, units, hexact⟩

/-- Shares are finite. -/
theorem IsShare.isFinite {x : Float} (h : IsShare x) : x.isFinite = true := by
  obtain ⟨negative, units, hexact, -⟩ := h
  exact Double.isFinite_iff_exact.mpr ⟨negative, units, hexact⟩

/-- Seconds that make a span are finite. -/
theorem Span.Fits.isFinite {s : Span} {x : Float} (h : s.Fits x) : x.isFinite = true := by
  obtain ⟨negative, units, hexact, -⟩ := h
  exact Double.isFinite_iff_exact.mpr ⟨negative, units, hexact⟩

/-- The doubles of a profile that is accepted are finite. -/
theorem Profile.isFinite_of_validate {p : Profile} (h : p.validate = .ok ()) :
    ∀ x ∈ p.doubles, x.isFinite = true := by
  have hmeets := (validate_ok_iff_meets p).mp h
  refine List.forall_mem_append.mpr ⟨?_, fun x hx => ?_⟩
  -- Each field of the profile has a condition, and every condition asks for a finite double.
  · simp only [List.forall_mem_cons, List.not_mem_nil, false_implies, implies_true, and_true]
    obtain ⟨period, hperiod, -⟩ := hmeets .monitorInterval
    exact ⟨IsMean.isFinite (hmeets .rpcSize), IsMean.isFinite (hmeets .replySize),
      (hmeets .rpcTime).1.isFinite, IsMean.isFinite (hmeets .memUpdateSize),
      IsMean.isFinite (hmeets .logAppendSize), (hmeets .lookupTime).1.isFinite,
      IsMean.isFinite (hmeets .readSize), IsShare.isFinite (hmeets .shortCircuitRatio),
      (hmeets .thinkTime).1.isFinite, hperiod.isFinite⟩
  · cases hdistribution : p.distribution with
    | uniform spread =>
      rw [hdistribution] at hx
      rw [List.mem_singleton.mp hx]
      exact (hmeets .distribution spread hdistribution).isFinite
    | constant | exponential => rw [hdistribution] at hx; cases hx

/-! ### Fields -/

/-- A distribution that is printed is decoded again. -/
theorem Distribution.ofJson_reread {d : Distribution} (h : ∀ x ∈ d.doubles, Json.Survives x) :
    ofJson d.toJson.reread = .ok d := by
  cases d with
  | constant | exponential => rfl
  | uniform spread =>
    have hspread := (h spread (List.mem_singleton_self spread)).reread
    have hread : (uniform spread).toJson.reread =
        .object [("uniform", .object [("spread", (Value.ofFloat spread).reread)])] := rfl
    rw [hread, hspread]
    rfl

namespace Profile

variable {p q : Profile}

/-- The value of a field in a printed profile. -/
def value (p : Profile) : Field → Value
  | .clientId => .ofNat p.id.toNat
  | .clientName => .text p.name
  | .numInstances => .ofNat p.instances.toNat
  | .rpcSize => .ofFloat p.rpcSize
  | .replySize => .ofFloat p.replySize
  | .rpcTime => .ofFloat p.rpcTime
  | .memUpdateSize => .ofFloat p.memUpdateSize
  | .logAppendSize => .ofFloat p.logAppendSize
  | .lookupTime => .ofFloat p.lookupTime
  | .readSize => .ofFloat p.readSize
  | .shortCircuitRatio => .ofFloat p.shortCircuitRatio
  | .thinkTime => .ofFloat p.thinkTime
  | .monitorInterval => .ofFloat p.monitorInterval
  | .distribution => p.distribution.toJson

/-- The member of a field in a printed profile. -/
def member (p : Profile) (f : Field) : String × Value := (f.name, p.value f)

/-- A printed profile has a member for every field, in the order of the fields. -/
theorem toJson_eq (p : Profile) : p.toJson = .object (Field.all.map p.member) := rfl

/-- Every value of a field can be printed. -/
theorem writable_value (p : Profile) (f : Field) {depth : Nat} :
    (p.value f).Writable (depth + 2) := by
  cases f
  case clientId => exact .ofNat (p.id.toNat_lt.trans (by decide))
  case clientName => exact .text _
  case numInstances => exact .ofNat p.instances.toNat_lt
  case distribution =>
    rw [value]
    cases p.distribution with
    | constant | exponential => exact .text _
    | uniform spread =>
      refine .object (List.forall_mem_singleton.mpr ?_)
      exact .object (List.forall_mem_singleton.mpr (.double spread))
  -- All other fields hold doubles.
  all_goals exact .double _

/-- **The value of a field is decoded to what the profile has there.** -/
theorem decode_value_reread (h : ∀ x ∈ p.doubles, Json.Survives x) (f : Field) :
    f.decode (p.value f).reread = .ok (p.get f) := by
  -- Whole numbers and doubles are read as they were printed.
  have hwhole {limit n : Nat} (expected : Json.Expected) (hlt : n < limit)
      (hlimit : limit ≤ 2 ^ 64) :
      Json.decodeWhole limit expected (Value.ofNat n).reread = .ok n := by
    rw [Json.reread_ofNat (hlt.trans_le hlimit), Section.decodeWhole_ok_iff]
    exact ⟨rfl, hlt⟩
  have hdouble {x : Float} (hx : x ∈ p.doubles) :
      (Json.decodeFloat (Value.ofFloat x).reread).map Datum.double = .ok (.double x) := by
    rw [(h x hx).reread]
    rfl
  cases f
  case clientId =>
    show (Json.decodeWhole UInt32.size .word32 _).map _ = _
    rw [value, hwhole .word32 p.id.toNat_lt (by decide)]
    simp [Except.map, get]
  case clientName => rfl
  case numInstances =>
    show (Json.decodeWhole UInt64.size .count _).map _ = _
    rw [value, hwhole .count p.instances.toNat_lt (by decide)]
    simp [Except.map, get]
  case distribution =>
    show (Distribution.ofJson _).map _ = _
    rw [value, Distribution.ofJson_reread fun x hx => h x (List.mem_append_right _ hx)]
    rfl
  all_goals exact hdouble (by simp [doubles])

/-! ### Objects -/

/-- Members in which every field is found are decoded to the profile that was printed. -/
theorem ofMembers_of_lookup (h : ∀ x ∈ p.doubles, Json.Survives x) {members : Members}
    (hordered : Ordered members)
    (hlookup : ∀ f : Field, members.lookup f.name = some (p.value f).reread) :
    ofMembers members = .ok p := by
  rw [ofMembers_ok_iff members hordered.nodup_names]
  intro f
  rw [Fits, hlookup f]
  exact decode_value_reread h f

/-- **Every field is found among the members that are read of a printed profile**, in whatever order
they were printed, and with others that name no field. -/
theorem exists_reread_members {members extras : Members}
    (hmembers : members.Perm (Field.all.map p.member ++ extras))
    (hextras : ∀ m ∈ extras, ∀ f : Field, m.1 ≠ f.name) :
    ∃ found, (Value.object members).reread = .object found ∧ Ordered found ∧
      ∀ f : Field, found.lookup f.name = some (p.value f).reread := by
  obtain ⟨found, hread, hordered, hlookup⟩ := Json.exists_reread_object members
  -- Names do not repeat, so the first member of a name is its only one.
  refine ⟨found, hread, hordered, fun f => hlookup f.name (p.value f) ?_ fun m hm hname => ?_⟩
  · exact hmembers.mem_iff.mpr
      (List.mem_append_left _ (List.mem_map_of_mem (f := p.member) f.mem_all))
  · rcases List.mem_append.mp (hmembers.mem_iff.mp hm) with hfield | hextra
    · obtain ⟨g, -, rfl⟩ := List.mem_map.mp hfield
      rw [Field.name_injective hname]
      rfl
    · exact absurd hname (hextras m hextra f)

/-! ### Lists -/

/-- **Values in the order of the fields are decoded to the profile that has them.** -/
theorem decodeItems_ok {values : Field → Value} (fields : List Field)
    (hdecode : ∀ f ∈ fields, f.decode (values f) = .ok (q.get f))
    (hother : ∀ f ∉ fields, p.get f = q.get f) :
    p.decodeItems fields (fields.map values) = .ok q := by
  induction fields generalizing p with
  | nil => exact congrArg Except.ok (ext_get fun f => hother f List.not_mem_nil)
  | cons f fields ih =>
    obtain ⟨hf, hfields⟩ := List.forall_mem_cons.mp hdecode
    rw [List.map_cons, decodeItems, decodeField_eq, hf]
    refine ih hfields fun g hg => ?_
    -- The field that has been decoded is right, and the others are as before.
    by_cases hsame : g = f
    · rw [hsame]
      exact get_set_of_decode p hf
    · rw [get_set_of_ne p _ hsame]
      exact hother g fun hmem => (List.mem_cons.mp hmem).elim hsame hg

/-- The values in the order of the fields are decoded to the profile. -/
theorem ofItems_reread (h : ∀ x ∈ p.doubles, Json.Survives x) :
    ofItems (Field.all.map fun f => (p.value f).reread) = .ok p := by
  have hdecoded := decodeItems_ok (p := undecoded) (q := p) Field.all
    (fun f _ => decode_value_reread h f) fun f hf => absurd f.mem_all hf
  rw [ofItems, hdecoded]
  rfl

/-- The members of a profile, in any order and with others. -/
theorem writable_members {members extras : Members}
    (hmembers : members.Perm (Field.all.map p.member ++ extras))
    (hextras : ∀ m ∈ extras, m.2.Writable (Json.maxDepth - 1)) :
    (Value.object members).Writable Json.maxDepth := by
  show (Value.object members).Writable (Json.maxDepth - 1 + 1)
  refine .object fun m hm => ?_
  rcases List.mem_append.mp (hmembers.mem_iff.mp hm) with hfield | hextra
  · obtain ⟨f, -, rfl⟩ := List.mem_map.mp hfield
    exact p.writable_value f
  · exact hextras m hextra

/-! ### Lists of profiles -/

/-- A profile as it is read. -/
theorem exists_reread_toJson (p : Profile) :
    ∃ found, p.toJson.reread = .object found ∧ Ordered found ∧
      ∀ f : Field, found.lookup f.name = some (p.value f).reread := by
  have hmembers : (Field.all.map p.member).Perm (Field.all.map p.member ++ []) := by
    rw [List.append_nil]
  exact exists_reread_members hmembers (List.forall_mem_nil _)

/-- A profile can be printed. -/
theorem writable_toJson (p : Profile) {depth : Nat} : p.toJson.Writable (depth + 3) := by
  rw [toJson_eq]
  exact .object (List.forall_mem_map.mpr fun f _ => p.writable_value f)

end Profile

namespace Section

/-- **A printed profile describes itself as a section.** -/
theorem describes_reread {p : Profile} (h : ∀ x ∈ p.doubles, Json.Survives x) (title : String) :
    Describes (title, p.toJson.reread) p := by
  obtain ⟨options, hread, -, hlookup⟩ := p.exists_reread_toJson
  refine ⟨options, hread, fun f => (datum_of_some (hlookup f) ?_ _).mpr ?_⟩
  · rintro rfl
    exact ⟨p.name, rfl⟩
  · exact Profile.decode_value_reread h f

/-- A profile with a title becomes a section with that title. -/
def ofPrinted (m : String × Profile) : String × Value := (m.1, m.2.toJson.reread)

/-- **Printed profiles under titles that count are loaded in the order of the titles**, if they
pass as a set. -/
theorem load_ofPrinted (fragment : String) (titled : List (String × Profile))
    (htitles : (titled.map Prod.fst).Nodup)
    (hcounted : ∀ m ∈ titled, fragment.toList <:+: m.1.toList)
    (hvalid : validateAll (titled.map Prod.snd) = .ok ())
    (hsurvive : ∀ m ∈ titled, ∀ x ∈ m.2.doubles, Json.Survives x) :
    ∃ sorted : List (String × Profile), sorted.Perm titled ∧
      sorted.Pairwise (fun m n => Json.bytes m.1 < Json.bytes n.1) ∧
      load fragment (ofMembers (Json.sortMembers (titled.map ofPrinted))) =
        (.ok (sorted.map Prod.snd), if titled = [] then [noneFoundWarning] else []) := by
  have hnames : ((titled.map ofPrinted).map Prod.fst).Nodup := by rwa [List.map_map]
  have hordered := Json.ordered_sortMembers (titled.map ofPrinted)
  -- Put into the order of the titles, the sections are still those of the profiles.
  obtain ⟨sorted, hsorted, htitled⟩ :
      ∃ sorted : List (String × Profile),
        Json.sortMembers (titled.map ofPrinted) = sorted.map ofPrinted ∧ sorted.Perm titled :=
    (iff_of_eq (congrFun₂ (List.eq_map_comp_perm ofPrinted) _ _)).mpr
      (Json.perm_sortMembers hnames)
  rw [hsorted, Ordered, List.pairwise_map] at hordered
  rw [hsorted]
  have hall : counted fragment (sorted.map ofPrinted) = sorted.map ofPrinted := by
    refine List.filter_eq_self.mpr (List.forall_mem_map.mpr fun m hm => ?_)
    exact decide_eq_true (hcounted m (htitled.mem_iff.mp hm))
  have hsortedValid := validateAll_ok_of_perm (htitled.map Prod.snd) hvalid
  refine ⟨sorted, htitled, hordered, Prod.ext (load_ok_iff.mpr ⟨?_, hsortedValid⟩) ?_⟩
  · rw [hall, List.forall₂_map_left_iff, List.forall₂_map_right_iff, List.forall₂_same]
    exact fun m hm => describes_reread (hsurvive m (htitled.mem_iff.mp hm)) m.1
  · have hempty : sorted = [] ↔ titled = [] := by
      rw [← List.length_eq_zero_iff, ← List.length_eq_zero_iff, htitled.length_eq]
    simp only [load_warnings, hall, List.map_eq_nil_iff, hempty]

end Section

namespace Profile

/-- **Profiles survive JSON.** Nothing is assumed but that the finite doubles of the profiles are
read as they are printed. An object with the members of a profile in any order, and with others
that name no field, is decoded to the profile, and so is the list of its values in the order of the
fields. What is printed of profiles that are accepted as a set is a list of as many objects. Each
under a title of its own that contains the fragment, they are loaded as the same profiles in the
order of the titles. -/
theorem json_roundTrip :
    (∀ p : Profile, (∀ x ∈ p.doubles, x.isFinite = true) →
        (∀ x ∈ p.doubles, x.isFinite = true → Json.Survives x) →
      p.toJson = .object (Field.all.map p.member) ∧
      (∀ members extras, members.Perm (Field.all.map p.member ++ extras) →
        (∀ m ∈ extras, (∀ f : Field, m.1 ≠ f.name) ∧ m.2.Writable (Json.maxDepth - 1)) →
        ∀ text ∈ [Json.compact (.object members), Json.pretty (.object members)],
          ∃ v, Json.parse? text = some v ∧ ofJson v = .ok p) ∧
      ∀ text ∈ [Json.compact (.array (Field.all.map p.value)),
          Json.pretty (.array (Field.all.map p.value))],
        ∃ v, Json.parse? text = some v ∧ ofJson v = .ok p) ∧
    ∀ ps : List Profile, validateAll ps = .ok () →
        (∀ p ∈ ps, ∀ x ∈ p.doubles, x.isFinite = true → Json.Survives x) →
      ∃ text items, text = Json.pretty (.array (ps.map toJson)) ∧
        (∀ (s : ProfileSource) read warnings, s.load read = (.ok ps, warnings) →
          (s.print read).output = [text]) ∧
        Json.parse? text = some (.array items) ∧ items.length = ps.length ∧
        ∀ (fragment : String) (names : List String), names.length = ps.length → names.Nodup →
          (∀ name ∈ names, fragment.toList <:+: name.toList) →
          ∃ sorted : List (String × Profile), sorted.Perm (names.zip ps) ∧
            sorted.Pairwise (fun m n => Json.bytes m.1 < Json.bytes n.1) ∧
            Section.load fragment (Section.ofMembers (Json.sortMembers (names.zip items))) =
              (.ok (sorted.map Prod.snd),
                if ps = [] then [Section.noneFoundWarning] else []) := by
  constructor
  · intro p hfinite hprint
    have hsurvive : ∀ x ∈ p.doubles, Json.Survives x := fun x hx => hprint x hx (hfinite x hx)
    refine ⟨p.toJson_eq, fun members extras hmembers hextras text htext => ?_, fun text htext => ?_⟩
    · have hwritable := writable_members hmembers fun m hm => (hextras m hm).2
      obtain ⟨found, hread, hordered, hlookup⟩ :=
        exists_reread_members hmembers fun m hm => (hextras m hm).1
      refine ⟨_, Json.parse?_printed hwritable htext, ?_⟩
      rw [hread]
      exact ofMembers_of_lookup hsurvive hordered hlookup
    · have hwritable : (Value.array (Field.all.map p.value)).Writable Json.maxDepth :=
        .array (List.forall_mem_map.mpr fun f _ => p.writable_value f)
      refine ⟨_, Json.parse?_printed hwritable htext, ?_⟩
      rw [Value.reread, Json.rereadItems_eq, List.map_map]
      exact ofItems_reread hsurvive
  · intro ps hvalid hprint
    -- What is accepted is finite, so it is assumed of all doubles that they survive.
    have hsurvive : ∀ p ∈ ps, ∀ x ∈ p.doubles, Json.Survives x := fun p hp x hx =>
      hprint p hp x hx (isFinite_of_validate (((validateAll_ok_iff ps).mp hvalid).1 p hp) x hx)
    have hwritable : (Value.array (ps.map toJson)).Writable Json.maxDepth :=
      .array (List.forall_mem_map.mpr fun p _ => p.writable_toJson)
    refine ⟨_, ps.map fun p => p.toJson.reread, rfl, fun s read warnings hload => ?_, ?_,
      List.length_map _, fun fragment names hlength hnames hcounted => ?_⟩
    · rw [ProfileSource.print, hload]
    · rw [Json.parse?_pretty hwritable, Value.reread, Json.rereadItems_eq, List.map_map]
      rfl
    · -- Each name with a value that was read is a printed profile with a title.
      have hitems : names.zip (ps.map fun p => p.toJson.reread) =
          (names.zip ps).map Section.ofPrinted := by
        rw [List.zip_map_right]
        rfl
      have htitles : (names.zip ps).map Prod.fst = names := List.map_fst_zip hlength.le
      have hprofiles : (names.zip ps).map Prod.snd = ps := List.map_snd_zip hlength.ge
      have hempty : names.zip ps = [] ↔ ps = [] := by
        rw [← List.map_eq_nil_iff (f := Prod.snd), hprofiles]
      obtain ⟨sorted, hperm, hsorted, hload⟩ := Section.load_ofPrinted fragment (names.zip ps)
        (by rwa [htitles]) (fun m hm => hcounted _ (List.of_mem_zip hm).1) (by rwa [hprofiles])
        fun m hm => hsurvive _ (List.of_mem_zip hm).2
      refine ⟨sorted, hperm, hsorted, ?_⟩
      rw [hitems, hload]
      simp only [hempty]

/-- A profile with marks and a line break in its name, and with numbers at their limits. -/
def marked : Profile :=
  { blank 0xffffffff "a \"b\\\n\u00fc" with
    instances := 0xffffffffffffffff
    rpcSize := 0.5
    thinkTime := 0.25
    distribution := .uniform 0.5 }

/-- Two profiles that are accepted as a set. -/
def markedAndBlank : List Profile := [marked, blank 3 "get"]

/-- The marked profile survives with a member more in front, and both survive as sections. -/
theorem json_roundTrip_marked :
    (∃ v, Json.parse? (Json.compact (.object (("owner", .null) :: Field.all.map marked.member))) =
        some v ∧ ofJson v = .ok marked) ∧
      validateAll markedAndBlank = .ok () ∧
        ∃ (items : List Value) (sorted : List (String × Profile)),
          Json.parse? (Json.pretty (.array (markedAndBlank.map toJson))) = some (.array items) ∧
          sorted.Perm (["hbase_client_b", "hbase_client_a"].zip markedAndBlank) ∧
          Section.load "hbase_client" (Section.ofMembers
              (Json.sortMembers (["hbase_client_b", "hbase_client_a"].zip items))) =
            (.ok (sorted.map Prod.snd), []) := by
  have hmarked : ∀ x ∈ marked.doubles, x.isFinite = true ∧ Json.Survives x := by decide +kernel
  have hblank : ∀ x ∈ (blank 3 "get").doubles, Json.Survives x := by decide +kernel
  have hvalid : validateAll markedAndBlank = .ok () := by
    rw [validateAll_ok_iff]
    simp only [validate_ok_iff]
    decide +kernel
  refine ⟨?_, hvalid, ?_⟩
  · obtain ⟨-, hobject, -⟩ := json_roundTrip.1 marked (fun x hx => (hmarked x hx).1)
      fun x hx _ => (hmarked x hx).2
    refine hobject _ [("owner", .null)] (List.perm_append_singleton _ _).symm ?_ _
      List.mem_cons_self
    exact List.forall_mem_singleton.mpr ⟨by intro f; cases f <;> decide, .null⟩
  · obtain ⟨_, items, rfl, -, hread, -, hload⟩ := json_roundTrip.2 markedAndBlank hvalid
      (List.forall_mem_cons.mpr ⟨fun x hx _ => (hmarked x hx).2,
        List.forall_mem_singleton.mpr fun x hx _ => hblank x hx⟩)
    obtain ⟨sorted, hperm, -, hsorted⟩ := hload "hbase_client" ["hbase_client_b", "hbase_client_a"]
      rfl (by decide) (by decide)
    exact ⟨items, sorted, hread, hperm, hsorted⟩

end Profile

end ClosedLoop
