import TaskGrammar.Text.Basic
import TaskGrammar.Text.Printable

/-!
# `TaskGrammar.Text.Quoted`: a text between quotes

Messages show a text that a user wrote between double quotes, so that its ends,
its blanks and its invisible characters can be seen. A quote and a backslash take
a backslash, the four common controls have their short escapes, and any other
character that would not show is written as its hexadecimal code in braces.
-/

set_option autoImplicit false

namespace TaskGrammar.Text

/-- How one character stands in a quoted text. -/
def quotedChar (c : Char) : Text :=
  match c with
  | '"' => ['\\', '"']
  | '\\' => ['\\', '\\']
  | '\n' => ['\\', 'n']
  | '\r' => ['\\', 'r']
  | '\t' => ['\\', 't']
  | '\x00' => ['\\', '0']
  | c =>
    if isPrintable c then
      [c]
    else
      ['\\', 'u', '{'] ++ Nat.toDigits 16 c.toNat ++ ['}']

/-- The text between double quotes, with every character visible. -/
def quoted (t : Text) : Text :=
  ['"'] ++ t.flatMap quotedChar ++ ['"']

end TaskGrammar.Text
