import ClosedLoop.Profile.Section
import ClosedLoop.Proofs.Json.Order
import ClosedLoop.Proofs.Profile.Fields

namespace ClosedLoop

open Json (Value DecodeError Members)
open Profile (absent)

/-!
# Records and sections describe the same profiles

A profile can be written as a record or as the options of a section. The two are read by different
code: a record member by member, in the order of the members; a section option by option, in the
order of the fields.

* `Section.datum`, `Section.profileOfOptions_ok_iff` — a section describes the profile that has in
  every field what the option of that field is read as;
* `Section.datum_of_some`, `Section.datum_of_none` — an option is read as the record decoder reads
  the member;
* `Section.profileOfOptions_insertMember` — the name of a client is read from any value, as its JSON
  text;
* `Profile.ofJson_iff_section` — the two readers agree on every object whose name of the client is a
  text or missing, and part where it is something else.
-/

namespace Section

/-! ### Sections, option by option -/

/-- Reads the option of a field as a value of the field. -/
def datum (title : String) (options : Members) : Field → Except ConfigError Datum
  | .clientId =>
    (unsigned title options UInt32.size .clientId).map fun n => .client (UInt32.ofNat n)
  | .clientName => (text title options .clientName).map .name
  | .numInstances =>
    (unsigned title options UInt64.size .numInstances).map fun n => .count (UInt64.ofNat n)
  | .monitorInterval => (monitorInterval title options).map .double
  | .distribution => (distribution title options).map .scatter
  | f => (number title options f).map .double

/-- **A section describes the profile that has in every field what its option is read as, and no
other.** -/
theorem profileOfOptions_ok_iff (title : String) (options : Members) (q : Profile) :
    profileOfOptions title options = .ok q ↔ ∀ f, datum title options f = .ok (q.get f) := by
  simp only [profileOfOptions, bind_eq_ok_iff]
  constructor
  -- Every value that was read is that of its field, and the profile is made of them.
  · rintro ⟨id, hid, name, hname, instances, hinstances, rpcSize, hrpcSize, replySize, hreplySize,
      rpcTime, hrpcTime, memUpdateSize, hmemUpdateSize, logAppendSize, hlogAppendSize,
      lookupTime, hlookupTime, readSize, hreadSize, ratio, hratio, thinkTime, hthinkTime,
      interval, hinterval, distribution, hdistribution, hq⟩
    obtain rfl := Except.ok.inj hq
    intro f
    cases f <;> simp only [datum, map_eq_ok_iff, *] <;> exact ⟨_, rfl, rfl⟩
  · intro h
    -- The other way round, each field of the profile has been read.
    obtain ⟨id, hid, hqid⟩ := (map_eq_ok_iff _ _ _).mp (h .clientId)
    obtain ⟨name, hname, hqname⟩ := (map_eq_ok_iff _ _ _).mp (h .clientName)
    obtain ⟨instances, hinstances, hqinstances⟩ := (map_eq_ok_iff _ _ _).mp (h .numInstances)
    have hnumber (f : Field) (x : Float) (hget : q.get f = .double x)
        (hdatum : datum title options f = (number title options f).map .double) :
        number title options f = .ok x := by
      obtain ⟨y, hy, hxy⟩ := (map_eq_ok_iff _ _ _).mp (hdatum ▸ h f)
      rw [hy, Datum.double.inj (hxy.trans hget)]
    obtain ⟨interval, hinterval, hqinterval⟩ := (map_eq_ok_iff _ _ _).mp (h .monitorInterval)
    obtain ⟨distribution, hdistribution, hqdistribution⟩ :=
      (map_eq_ok_iff _ _ _).mp (h .distribution)
    refine ⟨id, hid, name, hname, instances, hinstances,
      q.rpcSize, hnumber _ _ rfl rfl, q.replySize, hnumber _ _ rfl rfl,
      q.rpcTime, hnumber _ _ rfl rfl, q.memUpdateSize, hnumber _ _ rfl rfl,
      q.logAppendSize, hnumber _ _ rfl rfl, q.lookupTime, hnumber _ _ rfl rfl,
      q.readSize, hnumber _ _ rfl rfl, q.shortCircuitRatio, hnumber _ _ rfl rfl,
      q.thinkTime, hnumber _ _ rfl rfl, interval, hinterval, distribution, hdistribution, ?_⟩
    refine congrArg Except.ok (Profile.ext_get fun f => ?_)
    cases f <;> first | rfl | assumption

/-! ### Options against members -/

variable {title : String} {options : Members}

/-- An option that is there is found. -/
theorem option_of_some {f : Field} {v : Value} (hv : options.lookup f.name = some v) :
    option title options f = .ok v := by
  rw [option, hv]

/-- An option that is missing is an error. -/
theorem option_of_none {f : Field} (hnone : options.lookup f.name = none) :
    option title options f = .error (.missingOption title f) := by
  rw [option, hnone]

/-- A whole number is decoded if it is one below the limit. -/
theorem decodeWhole_ok_iff {limit : Nat} {expected : Json.Expected} {v : Value} {n : Nat} :
    Json.decodeWhole limit expected v = .ok n ↔ v.asNat? = some n ∧ n < limit := by
  match v with
  | .number (.whole (.ofNat m)) =>
    rw [Json.decodeWhole, Value.asNat?]
    by_cases hlt : m < limit
    · simp only [if_pos hlt, Except.ok.injEq, Option.some.injEq]
      -- A natural number has to be below the limit. Nothing else is a whole number without sign.
      constructor
      · rintro rfl
        exact ⟨rfl, hlt⟩
      · exact And.left
    · simp only [if_neg hlt, reduceCtorEq, Option.some.injEq, false_iff, not_and]
      rintro rfl
      exact hlt
  | .number (.whole (.negSucc m)) => simp [Json.decodeWhole, Value.asNat?]
  | .number (.double x) => simp [Json.decodeWhole, Value.asNat?]
  | .null => simp [Json.decodeWhole, Value.asNat?]
  | .bool b => simp [Json.decodeWhole, Value.asNat?]
  | .text s => simp [Json.decodeWhole, Value.asNat?]
  | .array items => simp [Json.decodeWhole, Value.asNat?]
  | .object members => simp [Json.decodeWhole, Value.asNat?]

/-- An unsigned option is read as the decoder of records reads a whole number. -/
theorem unsigned_of_some {f : Field} {v : Value} (hv : options.lookup f.name = some v)
    (limit : Nat) (expected : Json.Expected) (n : Nat) :
    unsigned title options limit f = .ok n ↔ Json.decodeWhole limit expected v = .ok n := by
  rw [decodeWhole_ok_iff, unsigned, option_of_some hv]
  simp only [bind, Except.bind]
  cases v.asNat? with
  | none => simp
  | some m =>
    -- Both readings look at the same limit.
    by_cases hlt : m < limit
    · simp only [if_pos hlt, Except.ok.injEq, Option.some.injEq]
      constructor
      · rintro rfl
        exact ⟨rfl, hlt⟩
      · exact And.left
    · simp only [if_neg hlt, reduceCtorEq, Option.some.injEq, false_iff, not_and]
      rintro rfl
      exact hlt

/-- A numeric option is read as the decoder of records reads a double. -/
theorem number_of_some {f : Field} {v : Value} (hv : options.lookup f.name = some v) (x : Float) :
    number title options f = .ok x ↔ Json.decodeFloat v = .ok x := by
  rw [number, option_of_some hv, Json.decodeFloat]
  simp only [bind, Except.bind]
  cases v.asFloat? <;> simp

/-- An option that is there is read as the decoder of records reads the member; the name of the
client only if it is a text. -/
theorem datum_of_some {f : Field} {v : Value} (hv : options.lookup f.name = some v)
    (hname : f = .clientName → ∃ s, v = .text s) (d : Datum) :
    datum title options f = .ok d ↔ f.decode v = .ok d := by
  cases f
  -- Whole numbers and doubles are read alike. The other fields have readings of their own.
  case clientId =>
    simp only [datum, Field.decode, map_eq_ok_iff, unsigned_of_some hv _ .word32]
  case numInstances =>
    simp only [datum, Field.decode, map_eq_ok_iff, unsigned_of_some hv _ .count]
  case clientName =>
    obtain ⟨s, rfl⟩ := hname rfl
    have htext : text title options .clientName = .ok s := by rw [text, option_of_some hv]; rfl
    simp [datum, Field.decode, htext, Json.decodeText, Except.map]
  case monitorInterval =>
    have hinterval : monitorInterval title options = number title options .monitorInterval := by
      rw [monitorInterval, hv]
    simp only [datum, Field.decode, hinterval, map_eq_ok_iff, number_of_some hv]
  case distribution =>
    simp only [datum, Field.decode, distribution, hv]
    cases Distribution.ofJson v <;> simp [Except.map]
  all_goals simp only [datum, Field.decode, map_eq_ok_iff, number_of_some hv]

/-- An option that is missing is read as the decoder of records reads a missing member. -/
theorem datum_of_none {f : Field} (hnone : options.lookup f.name = none) (d : Datum) :
    datum title options f = .ok d ↔ absent f = some d := by
  cases f
  -- The two optional fields have defaults, and without any other the profile is refused.
  case monitorInterval =>
    have hinterval : monitorInterval title options = .ok Profile.defaultMonitorInterval := by
      rw [monitorInterval, hnone]
    rw [datum, hinterval]
    exact (Except.ok.injEq _ _).to_iff.trans (Option.some.injEq _ _).to_iff.symm
  case distribution =>
    have hdistribution : distribution title options = .ok .constant := by
      rw [distribution, hnone]
    rw [datum, hdistribution]
    exact (Except.ok.injEq _ _).to_iff.trans (Option.some.injEq _ _).to_iff.symm
  all_goals
    simp [datum, unsigned, number, text, option_of_none hnone, absent, Profile.isOptional, bind,
      Except.bind, Except.map]

/-- A section reads from an option what a record decodes from the member. -/
theorem datum_ok_iff_fits
    (hname : ∀ v, options.lookup Field.clientName.name = some v → ∃ s, v = .text s)
    (q : Profile) (f : Field) :
    datum title options f = .ok (q.get f) ↔ q.Fits options f (absent f) := by
  rw [Profile.Fits]
  cases hlookup : options.lookup f.name with
  | none => exact datum_of_none hlookup _
  | some v =>
    refine datum_of_some hlookup ?_ _
    rintro rfl
    exact hname v hlookup

/-! ### A name that is no text -/

/-- **A section whose client name is no text describes what it describes with the JSON text of that
name in its place: the same profile or the same error.** -/
theorem profileOfOptions_insertMember {v : Value}
    (hv : options.lookup Field.clientName.name = some v) (htext : ∀ s, v ≠ .text s) :
    profileOfOptions title options =
      profileOfOptions title
        (Json.insertMember Field.clientName.name (.text (Json.compact v)) options) := by
  generalize hnew : Json.insertMember Field.clientName.name (.text (Json.compact v)) options = new
  -- No other option changes, and no other reading looks at the name.
  have hlookup (f : Field) (hf : f ≠ .clientName) :
      new.lookup f.name = options.lookup f.name := by
    rw [← hnew, Json.lookup_insertMember, if_neg fun h => hf (Field.name_injective h)]
  have hfound : new.lookup Field.clientName.name = some (.text (Json.compact v)) := by
    rw [← hnew, Json.lookup_insertMember, if_pos rfl]
  have hoption (f : Field) (hf : f ≠ .clientName) :
      option title new f = option title options f := by rw [option, option, hlookup f hf]
  have hunsigned (limit : Nat) (f : Field) (hf : f ≠ .clientName) :
      unsigned title new limit f = unsigned title options limit f := by
    rw [unsigned, unsigned, hoption f hf]
  have hnumber (f : Field) (hf : f ≠ .clientName) :
      number title new f = number title options f := by rw [number, number, hoption f hf]
  have hname : text title new .clientName = text title options .clientName := by
    have hother : text title options .clientName = .ok (Json.compact v) := by
      rw [text, option_of_some hv]
      cases v
      case text s => exact absurd rfl (htext s)
      all_goals rfl
    rw [hother, text, option_of_some hfound]
    rfl
  have hinterval : monitorInterval title new = monitorInterval title options := by
    rw [monitorInterval, monitorInterval, hlookup _ (by decide), hnumber _ (by decide)]
  have hdistribution : distribution title new = distribution title options := by
    rw [distribution, distribution, hlookup _ (by decide)]
  simp only [profileOfOptions, hname, hinterval, hdistribution,
    hunsigned _ .clientId (by decide), hunsigned _ .numInstances (by decide),
    hnumber .rpcSize (by decide), hnumber .replySize (by decide), hnumber .rpcTime (by decide),
    hnumber .memUpdateSize (by decide), hnumber .logAppendSize (by decide),
    hnumber .lookupTime (by decide), hnumber .readSize (by decide),
    hnumber .shortCircuitRatio (by decide), hnumber .thinkTime (by decide)]

end Section

/-! ### The two readers -/

/-- **Records and sections describe the same profiles.** For an object whose members have different
names: if the name of the client is missing or a text, the object is decoded as a record to exactly
those profiles that it describes as a section. Otherwise it is no record, and as a section it counts
like the object with the JSON text of that name in its place. -/
theorem Profile.ofJson_iff_section (title : String) (members : Members)
    (hnames : (members.map Prod.fst).Nodup) :
    ((∀ v, members.lookup Field.clientName.name = some v → ∃ s, v = .text s) →
        ∀ p, Profile.ofJson (.object members) = .ok p ↔
          Section.profile ⟨title, .object members⟩ = .ok p) ∧
      ∀ v, members.lookup Field.clientName.name = some v → (∀ s, v ≠ .text s) →
        (∃ e, Profile.ofJson (.object members) = .error e) ∧
          Section.profile ⟨title, .object members⟩ =
            Section.profile ⟨title, .object
              (Json.insertMember Field.clientName.name (.text (Json.compact v)) members)⟩ := by
  constructor
  · intro hname p
    show Profile.ofMembers members = .ok p ↔ Section.profileOfOptions title members = .ok p
    rw [Profile.ofMembers_ok_iff members hnames, Section.profileOfOptions_ok_iff]
    exact forall_congr' fun f => (Section.datum_ok_iff_fits hname p f).symm
  · intro v hv htext
    refine ⟨?_, Section.profileOfOptions_insertMember hv htext⟩
    show ∃ e, Profile.ofMembers members = .error e
    cases hresult : Profile.ofMembers members with
    | error e => exact ⟨e, rfl⟩
    | ok p =>
      -- the name of a decoded record is decoded from a text
      have hfits := (Profile.ofMembers_ok_iff members hnames p).mp hresult .clientName
      rw [Profile.Fits, hv] at hfits
      obtain ⟨s, hs, -⟩ := (map_eq_ok_iff _ _ _).mp hfits
      cases v
      case text s => exact absurd rfl (htext s)
      all_goals simp [Json.decodeText] at hs

/-- A record with whole numbers for doubles, a member that names no field, and neither a monitor
interval nor a distribution. -/
def Profile.sparseMembers : Members :=
  [("client_id", .ofNat 7), ("client_name", .text "scan"), ("datanode_read_size", .ofNat 64),
    ("log_append_size", .ofNat 0), ("mem_update_size", .ofNat 0),
    ("namenode_lookup_time", .ofNat 1), ("num_instances", .ofNat 3), ("owner", .null),
    ("reply_size", .ofNat 0), ("rpc_size", .ofNat 0), ("rpc_time", .ofNat 0),
    ("short_circuit_ratio", .ofNat 1), ("think_time", .ofNat 0)]

/-- The sparse record is a profile, and the section with these options describes the same one. -/
theorem Profile.ofJson_iff_section_sparse :
    (sparseMembers.map Prod.fst).Nodup ∧
      ∃ p, Profile.ofJson (.object sparseMembers) = .ok p ∧
        Section.profile ⟨"hbase_client_scan", .object sparseMembers⟩ = .ok p := by
  have hnames : (sparseMembers.map Prod.fst).Nodup := by decide
  have hname : ∀ v, sparseMembers.lookup Field.clientName.name = some v → ∃ s, v = .text s := by
    intro v hv
    have hscan : sparseMembers.lookup Field.clientName.name = some (.text "scan") := rfl
    exact ⟨"scan", (Option.some.inj (hscan.symm.trans hv)).symm⟩
  obtain ⟨p, hp⟩ : ∃ p, Profile.ofJson (.object sparseMembers) = .ok p := ⟨_, rfl⟩
  have hagree := ofJson_iff_section "hbase_client_scan" sparseMembers hnames
  exact ⟨hnames, p, hp, (hagree.1 hname p).mp hp⟩

end ClosedLoop
