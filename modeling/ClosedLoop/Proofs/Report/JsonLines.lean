import ClosedLoop.Proofs.Json.Characters
import ClosedLoop.Report.JsonLines

namespace ClosedLoop

open Json (Value Members)

/-!
# Reports as JSON lines can be read back

A line has no character in it that would end it or that JSON forbids, and a reader finds in it what
identifies a snapshot and what was counted, exactly. Only its doubles may differ, and those that are
not finite are left out. The characters that JSON forbids are U+0000 to U+001F, and the ends of a
line are among them. A name may hold other characters that are not visible, such as U+007F, U+0080
to U+009F, U+2028 and U+2029: they stand in a line as they are.

* `Json.Shows` — what a line says of a double;
* `Tally.Fits`, `Snapshot.exactMembers`, `Totals.exactMembers` — counters of 64 bits, and what is
  found exactly;
* `Snapshot.jsonLine_eq`, `RunReport.jsonLine_ok_iff` — the lines, if the milliseconds can be
  counted;
* `Json.forall_mem_compact` — the characters of a line;
* `Json.exists_reread_exact` — what a reader finds in an object;
* `Snapshot.IsLine`, `RunReport.IsLine` — the lines that can be read back
  (`Snapshot.exists_isLine`, `RunReport.isLine_of_ok`);
* `jsonLines_lossless` — **the lines of snapshots and of reports are one line each, and lossless on
  what they identify and count**.
-/

namespace Json

/-- What is read of a double: nothing exactly if it is not finite, and else a double. -/
def Shows (found : Option Value) (x : Float) : Prop :=
  (found = some .null ↔ x.isFinite = false) ∧
    (x.isFinite = true → ∃ y, found = some (.ofFloat y))

/-- A double that was printed shows, whatever it is. -/
theorem shows_reread (x : Float) : Shows (some (Value.ofFloat x).reread) x := by
  refine ⟨?_, fun h => ?_⟩
  · rw [Option.some.injEq]
    exact reread_double_eq_null_iff
  · obtain ⟨y, hy⟩ := exists_reread_double h
    exact ⟨y, by rw [hy]⟩

/-- What holds of the names and of the texts of the values holds of all texts of an object. -/
theorem forall_texts_ofMembers {ms : Members} {P : String → Prop}
    (h : ∀ m ∈ ms, P m.1 ∧ ∀ s ∈ m.2.texts, P s) : ∀ s ∈ (Value.ofMembers ms).texts, P s := by
  intro s hs
  obtain ⟨m, hm, rfl | hs⟩ := mem_membersTexts.mp hs
  · exact (h m (mem_of_mem_sortMembers hm)).1
  · exact (h m (mem_of_mem_sortMembers hm)).2 s hs

/-- The text consists of visible characters, or it is this one. -/
def IsVisibleOr (name s : String) : Prop := s = name ∨ ∀ c ∈ s.toList, IsVisible c

/-- A line with no text that is not visible, but for one, has only visible characters, but for those
of that text, and none from U+0000 to U+001F. -/
theorem forall_mem_compact {depth : Nat} {v : Value} {name : String} (h : v.Writable depth)
    (htexts : ∀ s ∈ v.texts, IsVisibleOr name s) :
    ∀ c ∈ (compact v).toList, ' ' ≤ c ∧ (c ≤ '~' ∨ c ∈ name.toList) := by
  intro c hc
  rw [compact, String.toList_ofList] at hc
  rcases mem_chars h c hc with hvisible | ⟨hblank, s, hs, hmem⟩
  · exact ⟨hvisible.1, .inl hvisible.2⟩
  · rcases htexts s hs with rfl | hvisible
    · exact ⟨hblank, .inr hmem⟩
    · exact ⟨hblank, .inl (hvisible c hmem).2⟩

end Json

/-! ### What is found exactly -/

/-- The counters fit 64 bits. -/
structure Tally.Fits (t : Tally) : Prop where
  requests : t.requests < 2 ^ 64
  successes : t.successes < 2 ^ 64
  failures : t.failures < 2 ^ 64
  timeouts : t.timeouts < 2 ^ 64

/-- What the line of a snapshot says exactly. -/
def Snapshot.exactMembers (s : Snapshot) : Members :=
  [("type", .text "snapshot"), ("client_id", .ofNat s.client.toNat),
    ("client_name", .text s.clientName), ("window_start_ms", .ofNat s.start.wholeMillis),
    ("window_end_ms", .ofNat s.stop.wholeMillis)] ++ s.tally.members

/-- The doubles in the line of a snapshot. -/
def Snapshot.doubles (s : Snapshot) : List (String × Float) :=
  [("rps", s.throughput), ("request_mb", s.request), ("response_mb", s.response)]

/-- The doubles among the latencies. -/
def LatencySummary.doubles (l : LatencySummary) : List (String × Float) :=
  [("mean", l.mean.toMillis), ("p50", l.p50.toMillis), ("p90", l.p90.toMillis),
    ("p99", l.p99.toMillis), ("max", l.max.toMillis)]

/-- What the entry of a client at the end says exactly. -/
def Totals.exactMembers (client : ClientId) (t : Totals) : Members :=
  [("client_id", .ofNat client.toNat), ("windows", .ofNat t.windows)] ++ t.tally.members

/-- The doubles in the entry of a client. -/
def Totals.doubles (t : Totals) : List (String × Float) :=
  [("transfer_mb", t.transfer), ("max_latency_ms", t.maxLatency.toMillis)]

/-- What the line at the end says exactly of the run. -/
def RunReport.exactMembers (r : RunReport) : Members :=
  [("type", .text "final"), ("elapsed_ms", .ofNat r.elapsed.wholeMillis),
    ("clean_shutdown", .bool r.cleanShutdown)]

/-- The members say exactly this, and show these doubles. -/
def Json.Says (members exact : Members) (doubles : List (String × Float)) : Prop :=
  (∀ m ∈ exact, members.lookup m.1 = some m.2) ∧
    ∀ d ∈ doubles, Json.Shows (members.lookup d.1) d.2

/-- The value is the entry of a client. -/
def Totals.IsEntry (entry : ClientId × Totals) (v : Value) : Prop :=
  ∃ members, v = .object members ∧
    Json.Says members (entry.2.exactMembers entry.1) entry.2.doubles

/-- The value says that it is about this client. -/
def Json.IsAbout (v : Value) (client : ClientId) : Prop :=
  ∃ members, v = .object members ∧ members.lookup "client_id" = some (.ofNat client.toNat)

/-- The first value is about a client with a smaller id than the second one. -/
def Json.ClientBefore (v w : Value) : Prop :=
  ∃ a b : ClientId, a < b ∧ Json.IsAbout v a ∧ Json.IsAbout w b

/-- The entry of a client is about this client. -/
theorem Totals.IsEntry.isAbout {entry : ClientId × Totals} {v : Value} (h : IsEntry entry v) :
    Json.IsAbout v entry.1 := by
  obtain ⟨members, rfl, hfound⟩ := h
  exact ⟨members, rfl, hfound.1 ("client_id", .ofNat entry.1.toNat) (by simp [exactMembers])⟩

/-- Entries of clients in ascending order of the ids are in that order. -/
theorem Totals.pairwise_clientBefore {totals : List (ClientId × Totals)} {clients : List Value}
    (hentries : List.Forall₂ IsEntry totals clients)
    (hascending : (totals.map Prod.fst).Pairwise (· < ·)) : clients.Pairwise Json.ClientBefore := by
  obtain ⟨hlength, hentry⟩ := List.forall₂_iff_get.mp hentries
  rw [List.pairwise_map, List.pairwise_iff_getElem] at hascending
  rw [List.pairwise_iff_getElem]
  intro i j hi hj hij
  have hi' : i < totals.length := by rwa [hlength]
  have hj' : j < totals.length := by rwa [hlength]
  exact ⟨_, _, hascending i j hi' hj' hij, (hentry i hi' hi).isAbout, (hentry j hj' hj).isAbout⟩

/-! ### Values -/

/-- Ids of clients fit into 64 bits. -/
theorem ClientId.toNat_lt_word (id : ClientId) : id.toNat < 2 ^ 64 := id.toNat_lt.trans (by decide)

variable {depth : Nat} {name : String}

/-- Counters that fit can be written. -/
theorem Tally.Fits.writable {t : Tally} (h : t.Fits) : ∀ m ∈ t.members, m.2.Writable depth := by
  simp only [members, List.forall_mem_cons, List.not_mem_nil, false_implies, implies_true, and_true]
  exact ⟨.ofNat h.requests, .ofNat h.successes, .ofNat h.failures, .ofNat h.timeouts⟩

/-- The names of the counters are visible, and there are no other texts. -/
theorem Tally.texts_members (t : Tally) :
    ∀ m ∈ t.members, Json.IsVisibleOr name m.1 ∧ ∀ s ∈ m.2.texts, Json.IsVisibleOr name s := by
  simp [members, Value.ofNat, Value.texts, Json.IsVisibleOr, Json.IsVisible]

/-- The latencies as an object, before its members are put into order. -/
def LatencySummary.members (l : LatencySummary) : Members :=
  [("mean", .ofFloat l.mean.toMillis), ("p50", .ofFloat l.p50.toMillis),
    ("p90", .ofFloat l.p90.toMillis), ("p99", .ofFloat l.p99.toMillis),
    ("max", .ofFloat l.max.toMillis)]

/-- A snapshot as an object, likewise. -/
def Snapshot.members (s : Snapshot) : Members :=
  [("type", .text "snapshot"), ("client_id", .ofNat s.client.toNat),
    ("client_name", .text s.clientName), ("window_start_ms", .ofNat s.start.wholeMillis),
    ("window_end_ms", .ofNat s.stop.wholeMillis), ("rps", .ofFloat s.throughput),
    ("request_mb", .ofFloat s.request), ("response_mb", .ofFloat s.response),
    ("latency_ms", s.latency.toJson)] ++ s.tally.members

/-- The totals of a client as an object, likewise. -/
def Totals.members (client : ClientId) (t : Totals) : Members :=
  [("client_id", .ofNat client.toNat), ("transfer_mb", .ofFloat t.transfer),
    ("max_latency_ms", .ofFloat t.maxLatency.toMillis), ("windows", .ofNat t.windows)] ++
    t.tally.members

/-- The end of a run as an object, likewise. -/
def RunReport.members (r : RunReport) : Members :=
  [("type", .text "final"), ("elapsed_ms", .ofNat r.elapsed.wholeMillis),
    ("clean_shutdown", .bool r.cleanShutdown),
    ("clients", .array (r.totals.map fun entry => entry.2.toJson entry.1))]

/-- The line of a snapshot whose bounds can be counted is the object with its members. -/
theorem Snapshot.jsonLine_eq {s : Snapshot} (hstart : s.start.wholeMillis < UInt64.size)
    (hstop : s.stop.wholeMillis < UInt64.size) :
    s.jsonLine = .ok (Json.compact (.ofMembers s.members)) := by
  rw [jsonLine, toJson, Span.millisValue, Span.millisValue, if_pos hstart, if_pos hstop]
  rfl

/-- The end of a run has a line exactly if its time can be counted, and which line that is. -/
theorem RunReport.jsonLine_ok_iff {r : RunReport} {line : String} :
    r.jsonLine = .ok line ↔
      r.elapsed.wholeMillis < UInt64.size ∧ line = Json.compact (.ofMembers r.members) := by
  rw [jsonLine, toJson, Span.millisValue]
  by_cases h : r.elapsed.wholeMillis < UInt64.size
  · rw [if_pos h, and_iff_right h]
    exact (Except.ok.injEq _ _).to_iff.trans eq_comm
  · rw [if_neg h]
    exact iff_of_false (fun h => nomatch h) fun hline => h hline.1

/-! ### What is written -/

/-- The latencies can be written. -/
theorem LatencySummary.writable (l : LatencySummary) : l.toJson.Writable (depth + 1) := by
  refine .ofMembers ?_
  simp only [List.forall_mem_cons, List.not_mem_nil, false_implies, implies_true, and_true]
  exact ⟨.double _, .double _, .double _, .double _, .double _⟩

/-- The names of the latencies are visible. -/
theorem LatencySummary.texts (l : LatencySummary) :
    ∀ s ∈ l.toJson.texts, Json.IsVisibleOr name s :=
  Json.forall_texts_ofMembers (by
    simp [Value.ofFloat, Value.texts, Json.IsVisibleOr, Json.IsVisible])

/-- A snapshot whose bounds and counters fit can be written. -/
theorem Snapshot.writable {s : Snapshot} (hstart : s.start.wholeMillis < UInt64.size)
    (hstop : s.stop.wholeMillis < UInt64.size) (htally : s.tally.Fits) :
    ∀ m ∈ s.members, m.2.Writable (depth + 1) := by
  refine List.forall_mem_append.mpr ⟨?_, htally.writable⟩
  simp only [List.forall_mem_cons, List.not_mem_nil, false_implies, implies_true, and_true]
  exact ⟨.text _, .ofNat (ClientId.toNat_lt_word _), .text _, .ofNat hstart, .ofNat hstop,
    .double _, .double _, .double _, s.latency.writable⟩

/-- The texts of a snapshot are visible, but for the name of its client. -/
theorem Snapshot.texts (s : Snapshot) :
    ∀ m ∈ s.members, Json.IsVisibleOr s.clientName m.1 ∧
      ∀ t ∈ m.2.texts, Json.IsVisibleOr s.clientName t := by
  refine List.forall_mem_append.mpr ⟨?_, s.tally.texts_members⟩
  simp only [List.forall_mem_cons, List.not_mem_nil, false_implies, implies_true, and_true]
  have hlatency : ∀ t ∈ s.latency.toJson.texts, Json.IsVisibleOr s.clientName t := s.latency.texts
  simp [Value.ofNat, Value.ofFloat, Value.texts, Json.IsVisibleOr, Json.IsVisible] at hlatency ⊢
  exact hlatency

/-- Totals whose counters fit can be written. -/
theorem Totals.writable {entry : ClientId × Totals} (htally : entry.2.tally.Fits)
    (hwindows : entry.2.windows < 2 ^ 64) : (entry.2.toJson entry.1).Writable (depth + 1) := by
  refine .ofMembers (List.forall_mem_append.mpr ⟨?_, htally.writable⟩)
  simp only [List.forall_mem_cons, List.not_mem_nil, false_implies, implies_true, and_true]
  exact ⟨.ofNat (ClientId.toNat_lt_word _), .double _, .double _, .ofNat hwindows⟩

/-- The names in the totals are visible. -/
theorem Totals.texts (entry : ClientId × Totals) :
    ∀ s ∈ (entry.2.toJson entry.1).texts, Json.IsVisibleOr name s := by
  refine Json.forall_texts_ofMembers (List.forall_mem_append.mpr ⟨?_, Tally.texts_members _⟩)
  simp [Value.ofNat, Value.ofFloat, Value.texts, Json.IsVisibleOr, Json.IsVisible]

/-- The end of a run whose time and counters fit can be written. -/
theorem RunReport.writable {r : RunReport} (helapsed : r.elapsed.wholeMillis < UInt64.size)
    (hfits : ∀ entry ∈ r.totals, entry.2.tally.Fits ∧ entry.2.windows < 2 ^ 64) :
    ∀ m ∈ r.members, m.2.Writable (depth + 2) := by
  simp only [members, List.forall_mem_cons, List.not_mem_nil, false_implies, implies_true, and_true]
  refine ⟨.text _, .ofNat helapsed, .bool _, .array ?_⟩
  rw [List.forall_mem_map]
  exact fun entry hentry => Totals.writable (hfits entry hentry).1 (hfits entry hentry).2

/-- All texts at the end of a run are visible. -/
theorem RunReport.texts (r : RunReport) :
    ∀ m ∈ r.members, Json.IsVisibleOr "" m.1 ∧ ∀ s ∈ m.2.texts, Json.IsVisibleOr "" s := by
  have hclients :
      ∀ s ∈ Json.itemsTexts (r.totals.map fun entry => entry.2.toJson entry.1),
        Json.IsVisibleOr "" s := by
    intro s hs
    obtain ⟨v, hv, hs⟩ := Json.mem_itemsTexts.mp hs
    obtain ⟨entry, -, rfl⟩ := List.mem_map.mp hv
    exact Totals.texts entry s hs
  simp [members, Value.ofNat, Value.texts, Json.IsVisibleOr, Json.IsVisible] at hclients ⊢
  exact hclients

/-! ### What is read -/

/-- A printed object says exactly what is read as it was printed, and shows its doubles. -/
theorem Json.exists_reread_exact (ms exact : Members) (doubles : List (String × Float))
    (hnames : (ms.map Prod.fst).Nodup)
    (hexact : ∀ m ∈ exact, m ∈ ms ∧ m.2.reread = m.2)
    (hdoubles : ∀ d ∈ doubles, (d.1, Value.ofFloat d.2) ∈ ms) :
    ∃ members, (Value.ofMembers ms).reread = .object members ∧ Says members exact doubles ∧
      ∀ m ∈ ms, members.lookup m.1 = some m.2.reread := by
  obtain ⟨members, heq, -, hlookup⟩ := exists_reread_ofMembers hnames
  refine ⟨members, heq, ⟨fun m hm => ?_, fun d hd => ?_⟩, hlookup⟩
  · rw [hlookup m (hexact m hm).1, (hexact m hm).2]
  · rw [hlookup _ (hdoubles d hd)]
    exact shows_reread d.2

/-- Counters that fit are read as they are. -/
theorem Tally.Fits.reread {t : Tally} (h : t.Fits) : ∀ m ∈ t.members, m.2.reread = m.2 := by
  simp only [members, List.forall_mem_cons, List.not_mem_nil, false_implies, implies_true, and_true]
  exact ⟨Json.reread_ofNat h.requests, Json.reread_ofNat h.successes,
    Json.reread_ofNat h.failures, Json.reread_ofNat h.timeouts⟩

/-- The latencies are read as an object that shows its doubles. -/
theorem LatencySummary.exists_reread (l : LatencySummary) :
    ∃ members, l.toJson.reread = .object members ∧ Json.Says members [] l.doubles := by
  obtain ⟨members, heq, hfound, -⟩ := Json.exists_reread_exact l.members [] l.doubles
    (by simp [LatencySummary.members]) (List.forall_mem_nil _)
    (by simp [LatencySummary.members, doubles])
  exact ⟨members, heq, hfound⟩

/-- A snapshot is read as an object that says what it identifies and counts. -/
theorem Snapshot.exists_reread {s : Snapshot} (hstart : s.start.wholeMillis < UInt64.size)
    (hstop : s.stop.wholeMillis < UInt64.size) (htally : s.tally.Fits) :
    ∃ members latencies, (Value.ofMembers s.members).reread = .object members ∧
      Json.Says members s.exactMembers s.doubles ∧
        members.lookup "latency_ms" = some (.object latencies) ∧
          Json.Says latencies [] s.latency.doubles := by
  have hexact : ∀ m ∈ s.exactMembers, m.2.reread = m.2 := by
    refine List.forall_mem_append.mpr ⟨?_, htally.reread⟩
    simp only [List.forall_mem_cons, List.not_mem_nil, false_implies, implies_true, and_true]
    exact ⟨rfl, Json.reread_ofNat (ClientId.toNat_lt_word _), rfl, Json.reread_ofNat hstart,
      Json.reread_ofNat hstop⟩
  -- The latencies are an object of their own inside the object.
  obtain ⟨latencies, hlatencies, hdoubles⟩ := s.latency.exists_reread
  obtain ⟨members, heq, hfound, hlookup⟩ := Json.exists_reread_exact s.members s.exactMembers
    s.doubles (by simp [Snapshot.members, Tally.members])
    (fun m hm => ⟨by revert m; simp [Snapshot.members, exactMembers, Tally.members], hexact m hm⟩)
    (by simp [Snapshot.members, doubles])
  refine ⟨members, latencies, heq, hfound, ?_, hdoubles⟩
  rw [← hlatencies]
  exact hlookup ("latency_ms", s.latency.toJson) (by simp [Snapshot.members])

/-- The totals of a client are read as the entry of this client. -/
theorem Totals.isEntry_reread {entry : ClientId × Totals} (htally : entry.2.tally.Fits)
    (hwindows : entry.2.windows < 2 ^ 64) :
    IsEntry entry (entry.2.toJson entry.1).reread := by
  have hexact : ∀ m ∈ entry.2.exactMembers entry.1, m.2.reread = m.2 := by
    refine List.forall_mem_append.mpr ⟨?_, htally.reread⟩
    simp only [List.forall_mem_cons, List.not_mem_nil, false_implies, implies_true, and_true]
    exact ⟨Json.reread_ofNat (ClientId.toNat_lt_word _), Json.reread_ofNat hwindows⟩
  obtain ⟨members, heq, hfound, -⟩ := Json.exists_reread_exact (entry.2.members entry.1)
    (entry.2.exactMembers entry.1) entry.2.doubles (by simp [Totals.members, Tally.members])
    (fun m hm => ⟨by revert m; simp [Totals.members, exactMembers, Tally.members], hexact m hm⟩)
    (by simp [Totals.members, doubles])
  exact ⟨members, heq, hfound⟩

/-- The end of a run is read as an object with an entry for every client. -/
theorem RunReport.exists_reread {r : RunReport} (helapsed : r.elapsed.wholeMillis < UInt64.size)
    (hfits : ∀ entry ∈ r.totals, entry.2.tally.Fits ∧ entry.2.windows < 2 ^ 64) :
    ∃ members clients, (Value.ofMembers r.members).reread = .object members ∧
      Json.Says members r.exactMembers [] ∧ members.lookup "clients" = some (.array clients) ∧
        List.Forall₂ Totals.IsEntry r.totals clients := by
  -- The clients are an array, which is no exact member but read entry by entry below.
  have hexact : ∀ m ∈ r.exactMembers, m.2.reread = m.2 := by
    simp only [exactMembers, List.forall_mem_cons, List.not_mem_nil, false_implies, implies_true,
      and_true]
    exact ⟨rfl, Json.reread_ofNat helapsed, rfl⟩
  obtain ⟨members, heq, hfound, hlookup⟩ := Json.exists_reread_exact r.members r.exactMembers []
    (by simp [RunReport.members])
    (fun m hm => ⟨by revert m; simp [RunReport.members, exactMembers], hexact m hm⟩)
    (List.forall_mem_nil _)
  refine ⟨members, _, heq, hfound,
    hlookup ("clients", .array (r.totals.map fun entry => entry.2.toJson entry.1))
      (by simp [RunReport.members]), ?_⟩
  rw [Json.rereadItems_eq, List.map_map, List.forall₂_map_right_iff, List.forall₂_same]
  exact fun entry hentry => Totals.isEntry_reread (hfits entry hentry).1 (hfits entry hentry).2

/-! ### Lines -/

/-- The line can be read back as the snapshot: it is one line, and an object is read of it that says
exactly what the snapshot identifies and counts, and shows its doubles. -/
def Snapshot.IsLine (s : Snapshot) (line : String) : Prop :=
  ∃ members latencies,
    (∀ c ∈ line.toList, ' ' ≤ c ∧ (c ≤ '~' ∨ c ∈ s.clientName.toList)) ∧
    Json.parse? line = some (.object members) ∧
    Json.Says members s.exactMembers s.doubles ∧
    members.lookup "latency_ms" = some (.object latencies) ∧
    Json.Says latencies [] s.latency.doubles

/-- The line can be read back as the end of the run, with an entry for every client of the totals,
in ascending order of the ids. -/
def RunReport.IsLine (r : RunReport) (line : String) : Prop :=
  ∃ members clients, (∀ c ∈ line.toList, ' ' ≤ c ∧ c ≤ '~') ∧
    Json.parse? line = some (.object members) ∧
    Json.Says members r.exactMembers [] ∧
    members.lookup "clients" = some (.array clients) ∧
    List.Forall₂ Totals.IsEntry r.totals clients ∧ clients.Pairwise Json.ClientBefore

/-- A snapshot whose bounds and counters fit has a line, and the line can be read back. -/
theorem Snapshot.exists_isLine {s : Snapshot} (hstart : s.start.wholeMillis < UInt64.size)
    (hstop : s.stop.wholeMillis < UInt64.size) (htally : s.tally.Fits) :
    ∃ line, s.jsonLine = .ok line ∧ s.IsLine line := by
  obtain ⟨members, latencies, hread, hfound, hlatencies, hdoubles⟩ :=
    s.exists_reread hstart hstop htally
  have hwritable : (Value.ofMembers s.members).Writable Json.maxDepth :=
    .ofMembers (s.writable hstart hstop htally)
  refine ⟨_, s.jsonLine_eq hstart hstop, members, latencies,
    Json.forall_mem_compact hwritable (Json.forall_texts_ofMembers s.texts), ?_, hfound,
    hlatencies, hdoubles⟩
  rw [Json.parse?_compact hwritable, hread]

/-- The line at the end of a run whose counters fit can be read back. -/
theorem RunReport.isLine_of_ok {r : RunReport}
    (hascending : (r.totals.map Prod.fst).Pairwise (· < ·))
    (hfits : ∀ entry ∈ r.totals, entry.2.tally.Fits ∧ entry.2.windows < 2 ^ 64) {line : String}
    (hline : r.jsonLine = .ok line) : r.IsLine line := by
  obtain ⟨helapsed, rfl⟩ := RunReport.jsonLine_ok_iff.mp hline
  obtain ⟨members, clients, hread, hfound, hclients, hentries⟩ := r.exists_reread helapsed hfits
  have hwritable : (Value.ofMembers r.members).Writable Json.maxDepth :=
    .ofMembers (r.writable helapsed hfits)
  refine ⟨members, clients, fun c hc => ?_, ?_, hfound, hclients, hentries,
    Totals.pairwise_clientBefore hentries hascending⟩
  · have hvisible := Json.forall_mem_compact hwritable (Json.forall_texts_ofMembers r.texts) c hc
    exact ⟨hvisible.1, hvisible.2.resolve_right (List.not_mem_nil)⟩
  · rw [Json.parse?_compact hwritable, hread]

/-- **A line is one line, and lossless on what it identifies and counts.** The line of a snapshot
whose bounds can be counted in 64 bits has no characters from U+0000 to U+001F, and none beside the
visible ones but those of the name of the client, which may be U+007F or U+2028. Read back it is an
object that says exactly who the client is, what was counted and where the window lies. In place of
a double, those of the latencies among them, there is nothing exactly if the double is not finite.
The end of a run, whose totals are kept in ascending order of the ids, has a line exactly if its
time can be counted. That one has visible characters only, and an entry for every client of the
totals, in the same order, with exactly its counters. -/
theorem jsonLines_lossless :
    (∀ s : Snapshot, s.start.wholeMillis < UInt64.size → s.stop.wholeMillis < UInt64.size →
        s.tally.Fits →
      ∃ line members latencies, s.jsonLine = .ok line ∧
        (∀ c ∈ line.toList, ' ' ≤ c ∧ (c ≤ '~' ∨ c ∈ s.clientName.toList)) ∧
        Json.parse? line = some (.object members) ∧
        Json.Says members s.exactMembers s.doubles ∧
        members.lookup "latency_ms" = some (.object latencies) ∧
        Json.Says latencies [] s.latency.doubles) ∧
    ∀ r : RunReport, (r.totals.map Prod.fst).Pairwise (· < ·) →
        (∀ entry ∈ r.totals, entry.2.tally.Fits ∧ entry.2.windows < 2 ^ 64) →
      ((∃ line, r.jsonLine = .ok line) ↔ r.elapsed.wholeMillis < UInt64.size) ∧
      ∀ line, r.jsonLine = .ok line →
        ∃ members clients, (∀ c ∈ line.toList, ' ' ≤ c ∧ c ≤ '~') ∧
          Json.parse? line = some (.object members) ∧
          Json.Says members r.exactMembers [] ∧
          members.lookup "clients" = some (.array clients) ∧
          List.Forall₂ Totals.IsEntry r.totals clients ∧ clients.Pairwise Json.ClientBefore := by
  refine ⟨fun s hstart hstop htally => ?_, fun r hascending hfits => ⟨?_, fun line hline => ?_⟩⟩
  · obtain ⟨line, hline, members, latencies, hlossless⟩ :=
      Snapshot.exists_isLine hstart hstop htally
    exact ⟨line, members, latencies, hline, hlossless⟩
  · simp only [RunReport.jsonLine_ok_iff, exists_and_left, exists_eq, and_true]
  · exact RunReport.isLine_of_ok hascending hfits hline

/-- A window of a client with marks and a line break in its name, with a counter at its limit and
with data that are no number. -/
def Snapshot.quoted : Snapshot where
  client := 7
  clientName := "a \"b\\\n"
  start := Span.zero
  stop := Span.ofMillis 5
  tally := ⟨2 ^ 64 - 1, 0, 3, 1⟩
  request := 0.0 / 0.0
  response := 1
  latency := ⟨Span.zero, Span.zero, Span.zero, Span.zero, Span.zero⟩

/-- The end of a run of two clients. -/
def RunReport.ended : RunReport where
  elapsed := Span.ofMillis 5
  snapshots := []
  totals := [(3, Totals.zero), (7, { Totals.zero with tally := Snapshot.quoted.tally })]
  cleanShutdown := true

/-- The line of this window gives the name and the counters back, and nothing for the data. -/
theorem jsonLines_lossless_quoted :
    (∃ line members, Snapshot.quoted.jsonLine = .ok line ∧ (∀ c ∈ line.toList, ' ' ≤ c) ∧
      Json.parse? line = some (.object members) ∧
      members.lookup "client_name" = some (.text "a \"b\\\n") ∧
      members.lookup "requests" = some (.ofNat (2 ^ 64 - 1)) ∧
      members.lookup "request_mb" = some .null) ∧
    ∃ line members clients, RunReport.ended.jsonLine = .ok line ∧
      Json.parse? line = some (.object members) ∧
      members.lookup "clients" = some (.array clients) ∧ clients.length = 2 ∧
      clients.Pairwise Json.ClientBefore := by
  -- All counters fit, the largest one just so.
  have hfits : Snapshot.quoted.tally.Fits := by constructor <;> decide
  have hzero : Totals.zero.tally.Fits := by constructor <;> decide
  constructor
  · obtain ⟨line, members, -, hline, hchars, hread, hfound, -⟩ :=
      jsonLines_lossless.1 Snapshot.quoted (by decide) (by decide) hfits
    exact ⟨line, members, hline, fun c hc => (hchars c hc).1, hread,
      hfound.1 ("client_name", .text "a \"b\\\n")
        (by simp [Snapshot.exactMembers, Snapshot.quoted]),
      hfound.1 ("requests", .ofNat (2 ^ 64 - 1))
        (by simp [Snapshot.exactMembers, Snapshot.quoted, Tally.members]),
      (hfound.2 ("request_mb", Snapshot.quoted.request) (by simp [Snapshot.doubles])).1.mpr
        (by decide)⟩
  · obtain ⟨hline, hlossless⟩ := jsonLines_lossless.2 RunReport.ended (by decide) (by
      simp only [RunReport.ended, List.forall_mem_cons, List.not_mem_nil, false_implies,
        implies_true, and_true]
      exact ⟨⟨hzero, by decide⟩, hfits, by decide⟩)
    obtain ⟨line, hline⟩ := hline.mpr (by decide)
    obtain ⟨members, clients, -, hread, -, hclients, hentries, hascending⟩ := hlossless line hline
    exact ⟨line, members, clients, hline, hread, hclients, hentries.length_eq.symm, hascending⟩

end ClosedLoop
