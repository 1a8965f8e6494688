import ClosedLoop.Json.Number

/-!
# Tokens of JSON text

* `Token.next?` — the first token of a text after blanks, with a rest that is shorter.
* `tokens?` — all tokens of a text.
-/

namespace ClosedLoop.Json

/-- A bracket, a separator or a scalar value. -/
inductive Token where
  | openArray
  | closeArray
  | openObject
  | closeObject
  | comma
  | colon
  | scalar (v : Value)

/-- The four blanks of JSON. -/
def isBlank (c : Char) : Bool :=
  c == ' ' || c == '\n' || c == '\t' || c == '\r'

/-! ### Strings -/

/-- The value of a hexadecimal digit. -/
def hexValue? (c : Char) : Option Nat :=
  if '0' ≤ c ∧ c ≤ '9' then some (c.toNat - '0'.toNat)
  else if 'a' ≤ c ∧ c ≤ 'f' then some (c.toNat - 'a'.toNat + 10)
  else if 'A' ≤ c ∧ c ≤ 'F' then some (c.toNat - 'A'.toNat + 10)
  else none

/-- The number written by four hexadecimal digits. -/
def hexWord? (a b c d : Char) : Option Nat := do
  let a ← hexValue? a
  let b ← hexValue? b
  let c ← hexValue? c
  let d ← hexValue? d
  return ((a * 16 + b) * 16 + c) * 16 + d

/-- Is this the first half of a surrogate pair? -/
def isHighSurrogate (n : Nat) : Bool := 0xd800 ≤ n && n < 0xdc00

/-- Is this the second half of a surrogate pair? -/
def isLowSurrogate (n : Nat) : Bool := 0xdc00 ≤ n && n < 0xe000

/-- The character that a one-letter escape stands for. -/
def simpleEscape? : Char → Option Char
  | '"' => some '"'
  | '\\' => some '\\'
  | '/' => some '/'
  | 'b' => some '\x08'
  | 'f' => some '\x0c'
  | 'n' => some '\n'
  | 'r' => some '\r'
  | 't' => some '\t'
  | _ => none

/-- The characters up to the closing quote, and what follows it. Control characters, unknown
escapes and halves of surrogate pairs are refused. -/
def stringBody? : List Char → Option (List Char × List Char)
  | [] => none
  | '"' :: rest => some ([], rest)
  | '\\' :: 'u' :: a :: b :: c :: d :: rest => do
    let n ← hexWord? a b c d
    if isHighSurrogate n then
      match rest with
      | '\\' :: 'u' :: a2 :: b2 :: c2 :: d2 :: rest2 => do
        let m ← hexWord? a2 b2 c2 d2
        if isLowSurrogate m then
          let (body, tail) ← stringBody? rest2
          return (Char.ofNat (0x10000 + (n - 0xd800) * 0x400 + (m - 0xdc00)) :: body, tail)
        else none
      | _ => none
    else if isLowSurrogate n then none
    else
      let (body, tail) ← stringBody? rest
      return (Char.ofNat n :: body, tail)
  | '\\' :: letter :: rest => do
    let c ← simpleEscape? letter
    let (body, tail) ← stringBody? rest
    return (c :: body, tail)
  | c :: rest =>
    if c < ' ' || c == '\\' then none
    else do
      let (body, tail) ← stringBody? rest
      return (c :: body, tail)

/-! ### Tokens -/

/-- The token that starts with this character, and what follows it. -/
def Token.after? (c : Char) (rest : List Char) : Option (Token × List Char) :=
  match c with
  | '[' => some (.openArray, rest)
  | ']' => some (.closeArray, rest)
  | '\x7b' => some (.openObject, rest)
  | '\x7d' => some (.closeObject, rest)
  | ',' => some (.comma, rest)
  | ':' => some (.colon, rest)
  | '"' => (stringBody? rest).map fun (body, tail) => (.scalar (.text (String.ofList body)), tail)
  | 'n' =>
    match rest with
    | 'u' :: 'l' :: 'l' :: tail => some (.scalar .null, tail)
    | _ => none
  | 't' =>
    match rest with
    | 'r' :: 'u' :: 'e' :: tail => some (.scalar (.bool true), tail)
    | _ => none
  | 'f' =>
    match rest with
    | 'a' :: 'l' :: 's' :: 'e' :: tail => some (.scalar (.bool false), tail)
    | _ => none
  | c => (number? (c :: rest)).map fun (n, tail) => (.scalar (.number n), tail)

/-- The first token of a text, and what follows it. -/
def Token.next? : List Char → Option (Token × List Char)
  | [] => none
  | c :: rest => if isBlank c then Token.next? rest else Token.after? c rest

/-- The tokens of a text, read with at most `fuel` steps. -/
def tokensWithin? : Nat → List Char → Option (List Token)
  | 0, _ => none
  | fuel + 1, cs =>
    match cs.dropWhile isBlank with
    | [] => some []
    | c :: rest => do
      let (token, tail) ← Token.after? c rest
      let others ← tokensWithin? fuel tail
      return token :: others

/-- All tokens of a text. A token takes at least one character. -/
def tokens? (cs : List Char) : Option (List Token) :=
  tokensWithin? (cs.length + 1) cs

end ClosedLoop.Json
