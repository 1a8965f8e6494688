import ClosedLoop.Text.Escaped

/-!
# Quoted text in messages

A text inside a message stands in double quotes. Quotes, backslashes and line controls are escaped
by a letter, a character without a glyph of its own by its code point in braces.

* `quoted` — a text as it is quoted in a message.
-/

namespace ClosedLoop.Text

/-- One character of a quoted text. -/
def quotedChar (c : Char) : List Char :=
  match c with
  | '\x00' => ['\\', '0']
  | '\t' => ['\\', 't']
  | '\r' => ['\\', 'r']
  | '\n' => ['\\', 'n']
  | '"' => ['\\', '"']
  | '\\' => ['\\', '\\']
  | c =>
    if needsEscape c then
      ['\\', 'u', '\x7b'] ++ Nat.toDigits 16 c.toNat ++ ['\x7d']
    else [c]

/-- A text as it is quoted in a message. -/
def quoted (s : String) : String :=
  String.ofList ('"' :: (s.toList.flatMap quotedChar ++ ['"']))

example : quoted "a\"\x01" = "\"a\\\"\\u\x7b1\x7d\"" := by decide +kernel

end ClosedLoop.Text
