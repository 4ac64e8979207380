import TaskGrammar.Markup.Reference

/-!
# `TaskGrammar.Markup.Attribute`: the attributes of a tag

Attributes are keys with quoted values. Blanks may stand around the equals sign, and
need not stand between attributes. A key may have a prefix, which does not count,
except that the declarations of such prefixes, `xmlns:prefix`, have no other name than
the whole of their key.

`scanAll` reads a tag attribute by attribute and goes on after a malformed one.
`ofText?` wants all of them well-formed, and no key twice. References in a value are
resolved only where someone asks for the value.
-/

set_option autoImplicit false

namespace TaskGrammar.Markup

/-- An attribute, its references as written. -/
structure Attribute where
  key : Text
  raw : Text
  deriving DecidableEq, Repr

/-- The prefix of a name, if it has one. -/
def prefixOf? (name : Text) : Option Text :=
  if ':' ∈ name then some (name.takeWhile fun c => c != ':') else none

/-- The part of a name after its prefix. -/
def localName (name : Text) : Text :=
  match name.dropWhile fun c => c != ':' with
  | [] => name
  | _ :: rest => rest

namespace Attribute

/-- The name by which an attribute is looked up. -/
def name (entry : Attribute) : Text :=
  if entry.key = "xmlns".toList ∨ "xmlns:".toList.isPrefixOf entry.key then entry.key
  else localName entry.key

/-- Whether a character ends a key. -/
def endsKey (c : Char) : Bool :=
  c == '=' || isBlank c

/-- Reads a quoted value, and gives what follows it. Without quotes, all is passed over
up to a blank; a value whose end is missing takes all that is left. -/
def scanValue : Text → Option Text × Text
  | [] => (none, [])
  | c :: rest =>
    if c = '"' ∨ c = '\'' then
      match rest.dropWhile fun d => d != c with
      | [] => (none, [])
      | _ :: rest' => (some (rest.takeWhile fun d => d != c), rest')
    else (none, rest.dropWhile fun d => !isBlank d)

/-- Reads attributes with a bound on their number. Where keys must be `distinct`, one of
the keys that are `given` already makes its attribute malformed, and all up to the next
blank is passed over. -/
def scanWithin (distinct : Bool) (given : List Text) : Nat → Text → List (Option Attribute)
  | 0, _ => []
  | bound + 1, t =>
    match t.dropWhile isBlank with
    | [] => []
    | c :: rest =>
      let key := c :: rest.takeWhile fun d => !endsKey d
      match (rest.dropWhile fun d => !endsKey d).dropWhile isBlank with
      | '=' :: afterEquals =>
        if distinct ∧ key ∈ given then
          none :: scanWithin distinct given bound (afterEquals.dropWhile fun d => !isBlank d)
        else
          let found := scanValue (afterEquals.dropWhile isBlank)
          (found.1.map fun raw => { key := key, raw := raw }) ::
            scanWithin distinct (key :: given) bound found.2
      -- A key without a value.
      | rest' => none :: scanWithin distinct given bound rest'

/-- The attributes of a tag one by one, with `none` for what is malformed. Each takes a
character, so their number is at most that of the characters. -/
def scanAll (distinct : Bool) (t : Text) : List (Option Attribute) :=
  scanWithin distinct [] t.length t

/-- The attributes of a tag. -/
def ofText? (t : Text) : Option (List Attribute) :=
  (scanAll true t).mapM id

end Attribute

end TaskGrammar.Markup
