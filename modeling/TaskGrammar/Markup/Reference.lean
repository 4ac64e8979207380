import TaskGrammar.Text.Basic

/-!
# `TaskGrammar.Markup.Reference`: characters written as references

Markup writes the characters that have a meaning of their own as references such as
`&lt;`. The writer needs three of them in text and five in attribute values. The
reader resolves these five, and characters given by their decimal or hexadecimal
code; it knows no other reference, and no `&` stands for itself.
-/

set_option autoImplicit false

namespace TaskGrammar.Markup

/-- The blanks of markup. -/
def isBlank (c : Char) : Bool :=
  c == ' ' || c == '\t' || c == '\n' || c == '\r'

/-- The characters with a reference by name. -/
def namedReferences : List (Text × Char) :=
  [("lt".toList, '<'), ("gt".toList, '>'), ("amp".toList, '&'), ("apos".toList, '\''),
    ("quot".toList, '"')]

/-- How a character stands in text. -/
def escapeInText (c : Char) : Text :=
  match c with
  | '<' => "&lt;".toList
  | '>' => "&gt;".toList
  | '&' => "&amp;".toList
  | c => [c]

/-- How a character stands in an attribute value. -/
def escapeInValue (c : Char) : Text :=
  match c with
  | '\'' => "&apos;".toList
  | '"' => "&quot;".toList
  | c => escapeInText c

/-- The value of a digit to a base of at most sixteen. -/
def digitValue? (base : Nat) (c : Char) : Option Nat :=
  let value? :=
    if c.isDigit then some (c.toNat - '0'.toNat)
    else if 'a' ≤ c ∧ c ≤ 'f' then some (c.toNat - 'a'.toNat + 10)
    else if 'A' ≤ c ∧ c ≤ 'F' then some (c.toNat - 'A'.toNat + 10)
    else none
  value?.filter fun value => decide (value < base)

/-- The number that digits to a base spell, going on from `n`. -/
def numberFrom? (base n : Nat) : Text → Option Nat
  | [] => some n
  | c :: rest =>
    match digitValue? base c with
    | none => none
    | some digit => numberFrom? base (n * base + digit) rest

/-- The character of a code; zero and the halves of surrogate pairs have none. -/
def charOfCode? (code : Nat) : Option Char :=
  if code ≠ 0 ∧ code.isValidChar then some (Char.ofNat code) else none

/-- The character that a reference stands for, given what is between `&` and `;`. -/
def charOfReference? (name : Text) : Option Char :=
  match name with
  | '#' :: 'x' :: digits =>
    if digits = [] then none else (numberFrom? 16 0 digits).bind charOfCode?
  | '#' :: digits =>
    if digits = [] then none else (numberFrom? 10 0 digits).bind charOfCode?
  | name => namedReferences.lookup name

/-- Resolves references. `pending` is what has been read of a reference that is not
yet ended, in reverse. -/
def resolveFrom? (pending : Option Text) : Text → Option Text
  | [] => if pending.isNone then some [] else none
  | c :: rest =>
    match pending with
    | none =>
      if c = '&' then resolveFrom? (some []) rest
      else (resolveFrom? none rest).map (c :: ·)
    | some name =>
      if c = ';' then
        match charOfReference? name.reverse with
        | none => none
        | some resolved => (resolveFrom? none rest).map (resolved :: ·)
      else if c = '&' then none
      else resolveFrom? (some (c :: name)) rest

/-- The text in which all references are resolved. -/
def resolve? (t : Text) : Option Text :=
  resolveFrom? none t

end TaskGrammar.Markup
