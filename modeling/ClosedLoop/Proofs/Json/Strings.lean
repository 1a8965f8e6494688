import ClosedLoop.Json.Text
import ClosedLoop.Json.Token

namespace ClosedLoop.Json

/-!
# Strings that are printed can be read

Every character of a string is printed so that the reader finds it again, whatever follows, and so
that no control character stands in the text: none from U+0000 to U+001F.

* `stringBody?_escapeChar`, `stringBody?_stringChars` — **a printed string is read as the string**;
* `mem_escapeChar` — the characters that are printed for a character: itself, or visible ones.
-/

variable {more : List Char}

/-- The reader puts a character in front of what follows it. -/
def withFirst (c : Char) (read : List Char × List Char) : List Char × List Char :=
  (c :: read.1, read.2)

/-- Two hexadecimal digits stand for a control character. -/
theorem hexWord?_control : ∀ n < 32,
    hexWord? '0' '0' (hexDigit (n / 16)) (hexDigit (n % 16)) = some n ∧
      isHighSurrogate n = false ∧ isLowSurrogate n = false := by
  decide

/-- A control character that is escaped is read back. -/
theorem stringBody?_control {c : Char} (hc : c < ' ') :
    stringBody? (['\\', 'u', '0', '0', hexDigit (c.toNat / 16), hexDigit (c.toNat % 16)] ++ more) =
      (stringBody? more).map (withFirst c) := by
  have hlt : c.toNat < 32 := hc
  obtain ⟨hword, hhigh, hlow⟩ := hexWord?_control c.toNat hlt
  simp only [List.cons_append, List.nil_append, stringBody?, hword, Option.bind_eq_bind,
    Option.bind_some, if_neg (Bool.eq_false_iff.mp hhigh), if_neg (Bool.eq_false_iff.mp hlow)]
  cases stringBody? more <;> simp [withFirst, Char.ofNat_toNat]

/-- A letter after a backslash stands for a character. -/
theorem stringBody?_letter {c letter : Char} (hletter : letter ≠ 'u')
    (hc : simpleEscape? letter = some c) :
    stringBody? ('\\' :: letter :: more) = (stringBody? more).map (withFirst c) := by
  rw [stringBody?, hc]
  · cases stringBody? more <;> rfl
  · rintro _ _ _ _ _ rfl
    exact absurd rfl hletter

/-- A plain character is read as it is. -/
theorem stringBody?_plain {c : Char} (hquote : c ≠ '"') (hbackslash : c ≠ '\\') (hc : ¬ c < ' ') :
    stringBody? (c :: more) = (stringBody? more).map (withFirst c) := by
  rw [stringBody?]
  · rw [if_neg (by simp [hc, hbackslash])]
    cases stringBody? more <;> rfl
  · exact hquote
  · exact fun _ _ _ _ _ h _ => hbackslash h
  · exact fun _ _ h _ => hbackslash h

/-- **A printed character is read as the character.** -/
theorem stringBody?_escapeChar (c : Char) (more : List Char) :
    stringBody? (escapeChar c ++ more) = (stringBody? more).map (withFirst c) := by
  rw [escapeChar.eq_def]
  split
  case h_8 =>
    split
    · rename_i hc
      exact stringBody?_control hc
    · rename_i hquote hbackslash _ _ _ _ _ hc
      exact stringBody?_plain hquote hbackslash hc
  all_goals exact stringBody?_letter (by decide) rfl

/-- **A printed string is read as the string, up to its closing quote.** -/
theorem stringBody?_stringChars (cs more : List Char) :
    stringBody? (cs.flatMap escapeChar ++ '"' :: more) = some (cs, more) := by
  induction cs with
  | nil => rw [List.flatMap_nil, List.nil_append, stringBody?]
  | cons c cs ih => rw [List.flatMap_cons, List.append_assoc, stringBody?_escapeChar, ih]; rfl

/-! ### Characters -/

/-- The characters from the blank to the tilde. -/
def IsVisible (c : Char) : Prop := ' ' ≤ c ∧ c ≤ '~'

instance (c : Char) : Decidable (IsVisible c) := inferInstanceAs (Decidable (_ ∧ _))

/-- Hexadecimal digits are visible. -/
theorem isVisible_hexDigit : ∀ n < 16, IsVisible (hexDigit n) := by decide

/-- What is printed for a character is visible, but for the character itself, which then comes after
U+001F. -/
theorem mem_escapeChar {c d : Char} (h : d ∈ escapeChar c) : IsVisible d ∨ d = c ∧ ' ' ≤ c := by
  rw [escapeChar.eq_def] at h
  split at h
  case h_8 =>
    -- Without an escape of its own a character is escaped by its number, or stands for itself.
    split at h
    · rename_i hc
      have hlt : c.toNat < 32 := hc
      simp only [List.mem_cons, List.not_mem_nil, or_false] at h
      rcases h with rfl | rfl | rfl | rfl | rfl | rfl
      · exact .inl (by decide)
      · exact .inl (by decide)
      · exact .inl (by decide)
      · exact .inl (by decide)
      · exact .inl (isVisible_hexDigit _ (by omega))
      · exact .inl (isVisible_hexDigit _ (by omega))
    · rename_i hc
      exact .inr ⟨List.mem_singleton.mp h, Char.not_lt.mp hc⟩
  all_goals
    simp only [List.mem_cons, List.not_mem_nil, or_false] at h
    rcases h with rfl | rfl <;> exact .inl (by decide)

/-- What is printed for a string is visible but for characters of the string. -/
theorem mem_stringChars {s : String} {d : Char} (h : d ∈ stringChars s) :
    IsVisible d ∨ d ∈ s.toList ∧ ' ' ≤ d := by
  rw [stringChars, List.mem_cons, List.mem_append, List.mem_singleton, List.mem_flatMap] at h
  rcases h with rfl | ⟨c, hc, h⟩ | rfl
  · exact .inl (by decide)
  · rcases mem_escapeChar h with hvisible | ⟨rfl, hd⟩
    · exact .inl hvisible
    · exact .inr ⟨hc, hd⟩
  · exact .inl (by decide)

end ClosedLoop.Json
