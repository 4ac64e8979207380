import TaskGrammar.Text.Basic

/-!
# `TaskGrammar.Json.Token`: the tokens of a JSON document

The tokens are the punctuation, the words `true`, `false` and `null`, numbers and
strings. A number keeps its digits as they are written, and a string its escaped
code units, so that a value nobody looks at may be out of range or hold half of a
surrogate pair.

`scan?` reads a token and gives what follows it; `tokens?` reads a document.
-/

set_option autoImplicit false

namespace TaskGrammar.Json

/-- A piece of a string: a character, or a code unit of 16 bits written as an
escape. -/
inductive StringUnit
  | char (c : Char)
  | code (n : Nat)
  deriving DecidableEq, Repr

/-- The text that string units spell: an escaped code unit is a character or half of
a surrogate pair whose other half must follow. -/
def textOfUnits? : List StringUnit → Option Text
  | [] => some []
  | .char c :: rest => (textOfUnits? rest).map (c :: ·)
  | .code n :: .code m :: rest =>
    if 0xD800 ≤ n ∧ n < 0xDC00 ∧ 0xDC00 ≤ m ∧ m < 0xE000 then
      (textOfUnits? rest).map (Char.ofNat (0x10000 + (n - 0xD800) * 0x400 + (m - 0xDC00)) :: ·)
    else if n < 0xD800 ∨ 0xE000 ≤ n then
      (textOfUnits? (.code m :: rest)).map (Char.ofNat n :: ·)
    else none
  | .code n :: rest =>
    if n < 0xD800 ∨ 0xE000 ≤ n then (textOfUnits? rest).map (Char.ofNat n :: ·) else none

/-- A token of a JSON document. -/
inductive Token
  | openBrace
  | closeBrace
  | openBracket
  | closeBracket
  | colon
  | comma
  | null
  | bool (value : Bool)
  | number (digits : Text)
  | string (units : List StringUnit)
  deriving DecidableEq, Repr

namespace Token

/-- The blanks between tokens. -/
def isBlank (c : Char) : Bool :=
  c == ' ' || c == '\n' || c == '\t' || c == '\r'

/-- The value of a hexadecimal digit. -/
def hexDigit? (c : Char) : Option Nat :=
  if '0' ≤ c ∧ c ≤ '9' then some (c.toNat - '0'.toNat)
  else if 'a' ≤ c ∧ c ≤ 'f' then some (c.toNat - 'a'.toNat + 10)
  else if 'A' ≤ c ∧ c ≤ 'F' then some (c.toNat - 'A'.toNat + 10)
  else none

/-- The unit that a backslash and the given character spell. -/
def simpleEscape? (c : Char) : Option StringUnit :=
  match c with
  | '"' => some (.char '"')
  | '\\' => some (.char '\\')
  | '/' => some (.char '/')
  | 'b' => some (.char '\x08')
  | 'f' => some (.char '\x0c')
  | 'n' => some (.char '\n')
  | 'r' => some (.char '\r')
  | 't' => some (.char '\t')
  | _ => none

/-- The code unit that four hexadecimal digits spell. -/
def hexUnit? (a b c d : Char) : Option StringUnit := do
  let a ← hexDigit? a
  let b ← hexDigit? b
  let c ← hexDigit? c
  let d ← hexDigit? d
  pure (.code (a * 0x1000 + b * 0x100 + c * 0x10 + d))

/-- Reads a string whose opening quote has been read. -/
def scanString? : Text → Option (List StringUnit × Text)
  | [] => none
  | '"' :: rest => some ([], rest)
  | '\\' :: 'u' :: a :: b :: c :: d :: rest => do
    let unit ← hexUnit? a b c d
    let found ← scanString? rest
    pure (unit :: found.1, found.2)
  | '\\' :: c :: rest => do
    let unit ← simpleEscape? c
    let found ← scanString? rest
    pure (unit :: found.1, found.2)
  | c :: rest =>
    if c.toNat < 0x20 ∨ c = '\\' then none
    else (scanString? rest).map fun found => (.char c :: found.1, found.2)

/-- Reads at least one digit. -/
def scanDigits? (t : Text) : Option (Text × Text) :=
  match t.takeWhile Char.isDigit with
  | [] => none
  | digits => some (digits, t.dropWhile Char.isDigit)

/-- Reads the digits before a fraction: a zero alone, or digits that start otherwise. -/
def scanWhole? : Text → Option (Text × Text)
  | '0' :: rest => some (['0'], rest)
  | t => scanDigits? t

/-- Reads the fraction of a number, if there is one. -/
def scanFraction? : Text → Option (Text × Text)
  | '.' :: rest => (scanDigits? rest).map fun found => ('.' :: found.1, found.2)
  | t => some ([], t)

/-- Reads the digits of an exponent, after its sign if there is one. -/
def scanSigned? : Text → Option (Text × Text)
  | '+' :: rest => (scanDigits? rest).map fun found => ('+' :: found.1, found.2)
  | '-' :: rest => (scanDigits? rest).map fun found => ('-' :: found.1, found.2)
  | t => scanDigits? t

/-- Reads the exponent of a number, if there is one. -/
def scanExponent? : Text → Option (Text × Text)
  | 'e' :: rest => (scanSigned? rest).map fun found => ('e' :: found.1, found.2)
  | 'E' :: rest => (scanSigned? rest).map fun found => ('e' :: found.1, found.2)
  | t => some ([], t)

/-- Reads a number without a sign. -/
def scanUnsigned? (t : Text) : Option (Text × Text) := do
  let whole ← scanWhole? t
  let fraction ← scanFraction? whole.2
  let exponent ← scanExponent? fraction.2
  pure (whole.1 ++ fraction.1 ++ exponent.1, exponent.2)

/-- Reads a number. -/
def scanNumber? : Text → Option (Text × Text)
  | '-' :: rest => (scanUnsigned? rest).map fun found => ('-' :: found.1, found.2)
  | t => scanUnsigned? t

/-- Reads the rest of a word. -/
def scanWord? (word : Text) (token : Token) (t : Text) : Option (Token × Text) :=
  if word.isPrefixOf t then some (token, t.drop word.length) else none

/-- Reads the token that starts with the character `c`. -/
def scanFrom? (c : Char) (rest : Text) : Option (Token × Text) :=
  match c with
  | '{' => some (openBrace, rest)
  | '}' => some (closeBrace, rest)
  | '[' => some (openBracket, rest)
  | ']' => some (closeBracket, rest)
  | ':' => some (colon, rest)
  | ',' => some (comma, rest)
  | 'n' => scanWord? "ull".toList null rest
  | 't' => scanWord? "rue".toList (bool true) rest
  | 'f' => scanWord? "alse".toList (bool false) rest
  | '"' => (scanString? rest).map fun found => (string found.1, found.2)
  | c => (scanNumber? (c :: rest)).map fun found => (number found.1, found.2)

/-- Reads the tokens of a text with a bound on their number. -/
def tokensWithin? : Nat → Text → Option (List Token)
  | 0, _ => none
  | bound + 1, t =>
    match t.dropWhile isBlank with
    | [] => some []
    | c :: rest =>
      match scanFrom? c rest with
      | none => none
      | some (token, rest') => (tokensWithin? bound rest').map (token :: ·)

/-- The tokens of a document. Each takes a character, so their number is at most that
of the characters. -/
def tokens? (t : Text) : Option (List Token) :=
  tokensWithin? (t.length + 1) t

end Token

end TaskGrammar.Json
