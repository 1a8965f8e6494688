/-!
# Text in the log

The log may end up on a terminal, which takes some control characters for commands. They are
written by their codes, so that a text can never command the terminal.

* `commandsTerminal` — the characters concerned.
* `logged` — a text as it stands in the log.
-/

namespace ClosedLoop.Text

/-- Does a terminal take the character for a command? These are the bell, the backspace, the form
feed, the escape, the delete and the control characters beyond it. -/
def commandsTerminal (c : Char) : Bool :=
  c = '\x07' || c = '\x08' || c = '\x0c' || c = '\x1b' || (0x7f ≤ c.toNat && c.toNat ≤ 0x9f)

/-- One character in the log: a code of one byte has two digits, a longer one stands in braces. -/
def loggedChar (c : Char) : List Char :=
  if commandsTerminal c then
    let digits := Nat.toDigits 16 c.toNat
    if c.toNat < 0x10 then ['\\', 'x', '0'] ++ digits
    else if c.toNat < 0x80 then ['\\', 'x'] ++ digits
    else ['\\', 'u', '\x7b'] ++ digits ++ ['\x7d']
  else [c]

/-- A text as it stands in the log. -/
def logged (s : String) : String := String.ofList (s.toList.flatMap loggedChar)

example : logged "a\x07\x7f\u0085\t" = "a\\x07\\x7f\\u\x7b85\x7d\t" := by decide +kernel

end ClosedLoop.Text
