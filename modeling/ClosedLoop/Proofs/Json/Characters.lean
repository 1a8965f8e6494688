import ClosedLoop.Proofs.Json.RoundTrip

namespace ClosedLoop.Json

/-!
# The characters of a printed value

A value on one line has no characters from U+0000 to U+001F in it, which are the control characters
of JSON: they are escaped. Any other character of a text stands as it is, visible or not.

* `Value.texts` — the texts of a value, among them the names of the members;
* `isVisible_numberChars` — numbers consist of visible characters;
* `mem_chars` — **a character of a line is visible, or a character of a text that comes after
  U+001F**.
-/

mutual

/-- The texts of a value, with the names of the members. -/
def Value.texts : Value → List String
  | .text s => [s]
  | .array items => itemsTexts items
  | .object members => membersTexts members
  | _ => []

/-- The texts of items. -/
def itemsTexts : List Value → List String
  | [] => []
  | v :: rest => v.texts ++ itemsTexts rest

/-- The names and the texts of members. -/
def membersTexts : List (String × Value) → List String
  | [] => []
  | (name, v) :: rest => name :: v.texts ++ membersTexts rest

end

/-- The texts of an array are those of its items. -/
theorem mem_itemsTexts {items : List Value} {s : String} :
    s ∈ itemsTexts items ↔ ∃ v ∈ items, s ∈ v.texts := by
  induction items with
  | nil => simp [itemsTexts]
  | cons v rest ih => rw [itemsTexts, List.mem_append, ih]; simp

/-- The texts of an object are its names and the texts of its values. -/
theorem mem_membersTexts {members : Members} {s : String} :
    s ∈ membersTexts members ↔ ∃ m ∈ members, s = m.1 ∨ s ∈ m.2.texts := by
  induction members with
  | nil => simp [membersTexts]
  | cons m rest ih =>
    rw [membersTexts, List.cons_append, List.mem_cons, List.mem_append, ih]
    simp [or_assoc]

/-! ### Scalars -/

/-- Digits are visible. -/
theorem isVisible_of_isDigit {c : Char} (h : c.isDigit = true) : IsVisible c := by
  simp only [Char.isDigit, Bool.and_eq_true, decide_eq_true_eq] at h
  have hlow : ' '.val ≤ '0'.val := by decide
  have hhigh : '9'.val ≤ '~'.val := by decide
  exact ⟨hlow.trans h.1, h.2.trans hhigh⟩

/-- A whole number is written in visible characters. -/
theorem isVisible_wholeChars (n : Nat) : ∀ c ∈ Decimal.wholeChars n, IsVisible c :=
  fun c hc => isVisible_of_isDigit ((Decimal.isDigits_wholeChars n).isDigit c hc)

/-- A number with a sign is written in visible characters. -/
theorem isVisible_intChars (i : Int) : ∀ c ∈ Decimal.intChars i, IsVisible c := by
  rw [Decimal.intChars]
  split
  · exact List.forall_mem_cons.mpr ⟨by decide, isVisible_wholeChars _⟩
  · exact isVisible_wholeChars _

/-- A numeral consists of digits and marks. -/
theorem isVisible_numeral {n : Decimal.Numeral} (hn : n.WellFormed) :
    ∀ c ∈ n.chars, IsVisible c := by
  obtain ⟨whole, fraction, exponent⟩ := n
  refine List.forall_mem_append.mpr ⟨fun c hc => isVisible_of_isDigit (hn.whole.isDigit c hc),
    List.forall_mem_append.mpr ⟨?_, ?_⟩⟩
  · cases fraction with
    -- The fraction is a point and digits, the exponent a mark, a sign and digits.
    | none => exact List.forall_mem_nil _
    | some digits =>
      exact List.forall_mem_cons.mpr ⟨by decide, fun c hc =>
        isVisible_of_isDigit ((hn.fraction digits rfl).isDigit c hc)⟩
  · cases exponent with
    | none => exact List.forall_mem_nil _
    | some e =>
      refine List.forall_mem_cons.mpr ⟨by decide, List.forall_mem_cons.mpr ⟨?_,
        isVisible_wholeChars _⟩⟩
      split <;> decide

/-- The word for nothing is visible. -/
theorem isVisible_null : ∀ c ∈ Value.null.chars, IsVisible c := by
  simp [Value.chars, IsVisible]

/-- The words for truth values are visible. -/
theorem isVisible_bool (b : Bool) : ∀ c ∈ (Value.bool b).chars, IsVisible c := by
  cases b <;> simp [Value.chars, IsVisible]

/-- A double is written in visible characters. -/
theorem isVisible_double (x : Float) : ∀ c ∈ (Number.double x).chars, IsVisible c := by
  by_cases h : ∃ isNegative units, Binary.exact x = .finite isNegative units
  · obtain ⟨isNegative, units, hexact⟩ := h
    obtain ⟨n, hn, hchars, -⟩ := exists_numeral_double hexact
    rw [hchars]
    refine List.forall_mem_append.mpr ⟨?_, isVisible_numeral hn⟩
    cases isNegative <;> simp [signChars, IsVisible]
  · rw [chars_of_not_finite fun isNegative units hexact => h ⟨isNegative, units, hexact⟩]
    exact isVisible_null

/-! ### Lines -/

/-- A character of parts with separators stands in a separator or in a part. -/
theorem mem_separated {separator : List Char} {parts : List (List Char)} {c : Char}
    (h : c ∈ separated separator parts) : c ∈ separator ∨ ∃ part ∈ parts, c ∈ part := by
  induction parts with
  | nil => cases h
  | cons part rest ih =>
    cases rest with
    | nil => exact .inr ⟨part, List.mem_cons_self, h⟩
    | cons next rest =>
      rw [separated, List.mem_append, List.mem_append] at h
      -- With a part to come there is a separator between.
      · rcases h with (hpart | hseparator) | hrest
        · exact .inr ⟨part, List.mem_cons_self, hpart⟩
        · exact .inl hseparator
        · exact (ih hrest).imp_right fun hfound =>
            hfound.imp fun p hp => ⟨List.mem_cons_of_mem _ hp.1, hp.2⟩
      · exact List.cons_ne_nil _ _

/-- The character may stand in a line: it is visible, or stands in one of the texts and comes after
U+001F. -/
def MayStand (texts : List String) (c : Char) : Prop :=
  IsVisible c ∨ ' ' ≤ c ∧ ∃ s ∈ texts, c ∈ s.toList

/-- More texts allow more characters. -/
theorem MayStand.mono {texts texts' : List String} {c : Char} (h : MayStand texts c)
    (hsub : ∀ s ∈ texts, s ∈ texts') : MayStand texts' c :=
  h.imp_right fun ⟨hc, s, hs, hmem⟩ => ⟨hc, s, hsub s hs, hmem⟩

/-- The characters of a printed text stand in the text, or are visible. -/
theorem mayStand_stringChars {s : String} {c : Char} (h : c ∈ stringChars s) : MayStand [s] c :=
  (mem_stringChars h).imp_right fun ⟨hmem, hc⟩ => ⟨hc, s, List.mem_singleton_self s, hmem⟩

/-- A bracket around parts with commas. -/
theorem mayStand_bracketed {opening closing : Char} {parts : List (List Char)}
    {texts : List String} {c : Char} (hopening : IsVisible opening) (hclosing : IsVisible closing)
    (hparts : ∀ part ∈ parts, ∀ c ∈ part, MayStand texts c)
    (h : c ∈ opening :: (separated [','] parts ++ [closing])) : MayStand texts c := by
  rw [List.mem_cons, List.mem_append, List.mem_singleton] at h
  rcases h with rfl | h | rfl
  · exact .inl hopening
  · rcases mem_separated h with hcomma | ⟨part, hpart, hc⟩
    · rw [List.mem_singleton.mp hcomma]
      exact .inl (by decide)
    · exact hparts part hpart c hc
  · exact .inl hclosing

/-- **A character of a printed line is visible, or it stands in a text of the value and comes after
U+001F.** -/
theorem mem_chars {depth : Nat} {v : Value} (h : v.Writable depth) :
    ∀ c ∈ v.chars, MayStand v.texts c := by
  have hvisible {c : Char} {texts : List String} (hc : IsVisible c) : MayStand texts c := .inl hc
  induction h with
  | null => exact fun c hc => hvisible (isVisible_null c hc)
  | bool b => exact fun c hc => hvisible (isVisible_bool b c hc)
  | @whole _ i => exact fun c hc => hvisible (isVisible_intChars i c hc)
  | double x => exact fun c hc => hvisible (isVisible_double x c hc)
  | text s => exact fun c hc => mayStand_stringChars hc
  | @array _ items _ ih =>
    -- The brackets and commas are visible, so the character stands in one of the items.
    intro c hc
    rw [Value.chars, itemsChars_eq] at hc
    refine mayStand_bracketed (by decide) (by decide) ?_ hc
    rw [List.forall_mem_map]
    exact fun v hv c hc => (ih v hv c hc).mono fun s hs => mem_itemsTexts.mpr ⟨v, hv, hs⟩
  | @object _ members _ ih =>
    -- The same for the members. Each is a name, a colon and a value.
    intro c hc
    rw [Value.chars, membersChars_eq] at hc
    refine mayStand_bracketed (by decide) (by decide) ?_ hc
    rw [List.forall_mem_map]
    intro m hm c hc
    rw [memberChars, List.mem_append, List.mem_cons] at hc
    have htexts (s : String) (hs : s = m.1 ∨ s ∈ m.2.texts) : s ∈ (Value.object members).texts :=
      mem_membersTexts.mpr ⟨m, hm, hs⟩
    rcases hc with hc | rfl | hc
    · exact (mayStand_stringChars hc).mono fun s hs =>
        htexts s (.inl (List.mem_singleton.mp hs))
    · exact hvisible (by decide)
    · exact (ih m hm c hc).mono fun s hs => htexts s (.inr hs)

end ClosedLoop.Json
