import ClosedLoop.Json.Token
import ClosedLoop.Proofs.Json.Numbers
import ClosedLoop.Proofs.Json.Strings

namespace ClosedLoop.Json

/-!
# The tokens of a printed text

Which tokens a text consists of is put together from the tokens of its parts. Between tokens there
may be blanks.

* `Lexes` — the tokens of a text, whatever follows that is apart from it;
* `Lexes.blanks_append`, `Lexes.token_append`, `Lexes.append_of_apart` — texts one after the other;
* `Lexes.separated` — parts with commas between them;
* `Lexes.tokens?` — **a whole text has the tokens of its parts**.
-/

/-! ### Tokens of a text -/

/-- The characters are read as the tokens, whatever apart follows them. -/
structure Lexes (cs : List Char) (tokens : List Token) : Prop where
  length_le : tokens.length ≤ cs.length
  append : ∀ {fuel : Nat} {more : List Char} {others : List Token}, Apart more →
    tokensWithin? fuel more = some others →
      tokensWithin? (fuel + tokens.length) (cs ++ more) = some (tokens ++ others)

namespace Lexes

variable {cs cs' blanks : List Char} {tokens tokens' : List Token} {token : Token} {c : Char}

/-- No characters make no tokens. -/
theorem nil : Lexes [] [] := ⟨Nat.le_refl _, fun _ h => h⟩

/-- Blanks in front are passed over. -/
theorem blanks_append (h : Lexes cs tokens) (hblanks : ∀ c ∈ blanks, isBlank c = true) :
    Lexes (blanks ++ cs) tokens := by
  refine ⟨by rw [List.length_append]; exact Nat.le_add_left_of_le h.length_le, ?_⟩
  intro fuel more others hmore hothers
  have hskip (n : Nat) (rest : List Char) :
      tokensWithin? n (blanks ++ rest) = tokensWithin? n rest := by
    cases n with
    | zero => rfl
    | succ n => rw [tokensWithin?, tokensWithin?, List.dropWhile_append_of_pos hblanks]
  rw [List.append_assoc, hskip]
  exact h.append hmore hothers

/-- A token that is read up to what follows it. -/
theorem token_append (hc : isBlank c = false)
    (htoken : ∀ rest, Token.after? c (cs ++ rest) = some (token, rest)) (h : Lexes cs' tokens) :
    Lexes (c :: cs ++ cs') (token :: tokens) := by
  refine ⟨?_, ?_⟩
  · have := h.length_le
    simp only [List.length_cons, List.length_append]
    omega
  · intro fuel more others hmore hothers
    rw [List.length_cons, ← Nat.add_assoc, List.append_assoc, List.cons_append, tokensWithin?,
      List.dropWhile_cons, hc]
    simp [htoken, h.append hmore hothers]

/-- A token that is read up to what is apart from it. -/
theorem singleton (hc : isBlank c = false)
    (htoken : ∀ more, Apart more → Token.after? c (cs ++ more) = some (token, more)) :
    Lexes (c :: cs) [token] := by
  refine ⟨by simp, ?_⟩
  intro fuel more others hmore hothers
  rw [List.length_singleton, List.cons_append, tokensWithin?, List.dropWhile_cons, hc]
  simp [htoken more hmore, hothers]

/-- Two texts make the tokens of both, if the first ends where it must. -/
theorem append_of_apart (h : Lexes cs tokens) (h' : Lexes cs' tokens')
    (hapart : ∀ more, Apart more → Apart (cs' ++ more)) :
    Lexes (cs ++ cs') (tokens ++ tokens') := by
  refine ⟨?_, ?_⟩
  · rw [List.length_append, List.length_append]
    exact Nat.add_le_add h.length_le h'.length_le
  · intro fuel more others hmore hothers
    rw [List.length_append, List.append_assoc, List.append_assoc, Nat.add_comm tokens.length,
      ← Nat.add_assoc]
    exact h.append (hapart more hmore) (h'.append hmore hothers)

end Lexes

/-- More steps find the same tokens. -/
theorem tokensWithin?_mono {n n' : Nat} {cs : List Char} {tokens : List Token} (hle : n ≤ n')
    (h : tokensWithin? n cs = some tokens) : tokensWithin? n' cs = some tokens := by
  induction n generalizing n' cs tokens with
  | zero => cases h
  | succ n ih =>
    obtain ⟨n', rfl⟩ := Nat.exists_eq_add_of_le' hle
    rw [← Nat.add_assoc, tokensWithin?]
    rw [tokensWithin?] at h
    -- The texts are the same, so only the recursion needs the steps.
    split at h
    · exact h
    · obtain ⟨⟨token, tail⟩, htoken, h⟩ := Option.bind_eq_some_iff.mp h
      obtain ⟨others, hothers, h⟩ := Option.bind_eq_some_iff.mp h
      simp only [htoken, ih (Nat.le_add_left n n') hothers, Option.bind_eq_bind, Option.bind_some]
      exact h

/-- The tokens of a whole text. -/
theorem Lexes.tokens? {cs : List Char} {tokens : List Token} (h : Lexes cs tokens) :
    tokens? cs = some tokens := by
  have hend : tokensWithin? 1 [] = some [] := rfl
  have hall := h.append apart_nil hend
  rw [List.append_nil, List.append_nil] at hall
  exact tokensWithin?_mono (by have := h.length_le; omega) hall

/-! ### Scalars -/

/-- A number starts with a digit or a minus sign. -/
theorem head_of_number? {c : Char} {rest : List Char} {found : Number × List Char}
    (h : number? (c :: rest) = some found) : c = '-' ∨ c.isDigit = true := by
  by_cases hc : c = '-'
  · exact .inl hc
  · refine .inr ?_
    by_contra hdigit
    rw [number?] at h
    · rw [wholePart?, List.takeWhile_cons, if_neg hdigit] at h
      cases h
    · rintro _ ⟨⟩
      exact hc rfl

/-- A number begins like no other token. -/
theorem after?_number {c : Char} {rest : List Char} {found : Number × List Char}
    (h : number? (c :: rest) = some found) :
    isBlank c = false ∧
      Token.after? c rest = some (.scalar (.number found.1), found.2) := by
  have hhead := head_of_number? h
  -- The first character is a minus or a digit, hence none of the other beginnings.
  have hne {d : Char} (hminus : '-' ≠ d) (hd : d.isDigit = false) : c ≠ d := by
    rintro rfl
    rcases hhead with rfl | hdigit
    · exact hminus rfl
    · rw [hd] at hdigit
      cases hdigit
  constructor
  · rw [isBlank]
    simp [hne (d := ' ') (by decide) (by decide), hne (d := '\n') (by decide) (by decide),
      hne (d := '\t') (by decide) (by decide), hne (d := '\r') (by decide) (by decide)]
  · rw [Token.after?.eq_def]
    split
    case h_11 => rw [h]; rfl
    all_goals exact absurd rfl (hne (by decide) (by decide))

/-- A number that is read back alone makes one token. -/
theorem lexes_number {n m : Number}
    (h : ∀ more, Apart more → number? (n.chars ++ more) = some (m, more)) :
    Lexes n.chars [.scalar (.number m)] := by
  have hall := h [] apart_nil
  rw [List.append_nil] at hall
  cases hchars : n.chars with
  | nil => rw [hchars] at hall; cases hall
  | cons c cs =>
    rw [hchars] at h hall
    exact .singleton (after?_number hall).1 fun more hmore => (after?_number (h more hmore)).2

/-- A text in front of other tokens. -/
theorem Lexes.stringChars_append {cs : List Char} {tokens : List Token} (s : String)
    (h : Lexes cs tokens) : Lexes (stringChars s ++ cs) (.scalar (.text s) :: tokens) := by
  refine Lexes.token_append (by decide) (fun rest => ?_) h
  rw [List.append_assoc, List.singleton_append, Token.after?, stringBody?_stringChars,
    Option.map_some]
  simp only [String.ofList_toList]

/-- The word for nothing is one token. -/
theorem lexes_null : Lexes "null".toList [.scalar .null] :=
  .singleton (by decide) fun _ _ => rfl

/-- Each word for a truth value is one token. -/
theorem lexes_bool (b : Bool) : Lexes (Value.bool b).chars [.scalar (.bool b)] := by
  cases b <;> exact .singleton (by decide) fun _ _ => rfl

/-- A text is one token. -/
theorem lexes_text (s : String) : Lexes (stringChars s) [.scalar (.text s)] := by
  rw [← List.append_nil (stringChars s)]
  exact Lexes.nil.stringChars_append s

/-! ### Brackets and separators -/

variable {cs blanks : List Char} {tokens : List Token}

/-- A bracket or separator in front is a token of its own. -/
theorem Lexes.mark_cons {c : Char} {token : Token} (hc : isBlank c = false)
    (htoken : ∀ rest, Token.after? c rest = some (token, rest)) (h : Lexes cs tokens) :
    Lexes (c :: cs) (token :: tokens) :=
  Lexes.token_append hc (show ∀ rest, Token.after? c ([] ++ rest) = _ from htoken) h

/-- Blanks and then one that no number goes on with. -/
theorem apart_blanks_append {c : Char} {more : List Char}
    (hblanks : ∀ c ∈ blanks, isBlank c = true)
    (hc : c.isDigit = false ∧ c ≠ '.' ∧ c ≠ 'e' ∧ c ≠ 'E') : Apart (blanks ++ c :: more) := by
  cases blanks with
  | nil => exact apart_cons hc
  | cons blank blanks =>
    refine apart_cons ?_
    have hblank := hblanks blank List.mem_cons_self
    simp only [isBlank, Bool.or_eq_true, beq_iff_eq, or_assoc] at hblank
    rcases hblank with rfl | rfl | rfl | rfl <;> decide

/-- The tokens of parts with commas between them. -/
def joined : List (List Token) → List Token
  | [] => []
  | [part] => part
  | part :: rest => part ++ .comma :: joined rest

/-- **Parts with a comma and blanks between them have the tokens of the parts, with commas between
those.** -/
theorem Lexes.separated {parts : List (List Char)} {partTokens : List (List Token)}
    (hblanks : ∀ c ∈ blanks, isBlank c = true) (h : List.Forall₂ Lexes parts partTokens) :
    Lexes (separated (',' :: blanks) parts) (joined partTokens) := by
  induction h with
  | nil => exact .nil
  | cons hpart hrest ih =>
    cases hrest with
    | nil => exact hpart
    -- The comma separates the part from what follows, so it needs no look ahead.
    | cons hnext hrest =>
      rw [Json.separated, joined, List.append_assoc]
      · exact hpart.append_of_apart ((ih.blanks_append hblanks).mark_cons (by decide) fun _ => rfl)
          fun more _ => apart_cons (by decide)
      · exact fun h => nomatch h
      · exact fun h => nomatch h

/-- A text between brackets, with blanks inside the brackets. -/
theorem Lexes.bracketed {opening closing : Char} {first last : Token} {before after : List Char}
    (hopening : isBlank opening = false)
    (hfirst : ∀ rest, Token.after? opening rest = some (first, rest))
    (hclosing : isBlank closing = false)
    (hlast : ∀ rest, Token.after? closing rest = some (last, rest))
    (hmark : closing.isDigit = false ∧ closing ≠ '.' ∧ closing ≠ 'e' ∧ closing ≠ 'E')
    (hbefore : ∀ c ∈ before, isBlank c = true) (hafter : ∀ c ∈ after, isBlank c = true)
    (h : Lexes cs tokens) :
    Lexes (opening :: (before ++ cs ++ after ++ [closing])) (first :: (tokens ++ [last])) := by
  -- The closing bracket ends whatever comes before it, numbers included.
  have hend : Lexes (after ++ [closing]) [last] :=
    (Lexes.nil.mark_cons hclosing hlast).blanks_append hafter
  rw [List.append_assoc, List.append_assoc]
  refine Lexes.mark_cons hopening hfirst (Lexes.blanks_append ?_ hbefore)
  refine h.append_of_apart hend fun more _ => ?_
  rw [List.append_assoc, List.singleton_append]
  exact apart_blanks_append hafter hmark

end ClosedLoop.Json
