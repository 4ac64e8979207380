import TaskGrammar.Json.Token

/-!
# `TaskGrammar.Json.Value`: the values of JSON documents

The reader goes through the tokens once and keeps the lists and records that are
still open on a stack, so that a document may nest as deep as it likes.
-/

set_option autoImplicit false

namespace TaskGrammar.Json

/-- A JSON value. A record keeps its members in order, repeated keys included. -/
inductive Value
  | null
  | bool (value : Bool)
  | number (digits : Text)
  | string (units : List StringUnit)
  | list (items : List Value)
  | record (members : List (List StringUnit × Value))

/-- A list or a record that is still open, its parts in reverse. -/
inductive Frame
  | list (items : List Value)
  | record (members : List (List StringUnit × Value)) (key : List StringUnit)

/-- What the reader is waiting for. -/
inductive Expectation
  /-- A value. -/
  | value
  /-- A value, or the end of the list that was just opened. -/
  | firstItem
  /-- A key, or the end of the record that was just opened. -/
  | firstKey
  /-- A key of the record whose members so far are given, in reverse. -/
  | key (members : List (List StringUnit × Value))
  /-- The colon after a key of such a record. -/
  | colon (members : List (List StringUnit × Value)) (key : List StringUnit)
  /-- A comma or a closing mark after the value; the end, if nothing is open. -/
  | next (value : Value)

namespace Value

/-- Reads a value from tokens, `stack` being what is open around it. -/
def read (stack : List Frame) : Expectation → List Token → Option Value
  | .next value, [] => if stack.isEmpty then some value else none
  | _, [] => none
  | .next value, token :: rest =>
    match stack, token with
    | .list items :: outer, .comma => read (.list (value :: items) :: outer) .value rest
    | .list items :: outer, .closeBracket =>
      read outer (.next (.list (value :: items).reverse)) rest
    | .record members key :: outer, .comma => read outer (.key ((key, value) :: members)) rest
    | .record members key :: outer, .closeBrace =>
      read outer (.next (.record ((key, value) :: members).reverse)) rest
    | _, _ => none
  | .colon members key, token :: rest =>
    match token with
    | .colon => read (.record members key :: stack) .value rest
    | _ => none
  | .key members, token :: rest =>
    match token with
    | .string units => read stack (.colon members units) rest
    | _ => none
  | .firstKey, token :: rest =>
    match token with
    | .string units => read stack (.colon [] units) rest
    | .closeBrace => read stack (.next (.record [])) rest
    | _ => none
  | .firstItem, token :: rest =>
    match token with
    | .closeBracket => read stack (.next (.list [])) rest
    | .null => read (.list [] :: stack) (.next .null) rest
    | .bool value => read (.list [] :: stack) (.next (.bool value)) rest
    | .number digits => read (.list [] :: stack) (.next (.number digits)) rest
    | .string units => read (.list [] :: stack) (.next (.string units)) rest
    | .openBracket => read (.list [] :: stack) .firstItem rest
    | .openBrace => read (.list [] :: stack) .firstKey rest
    | _ => none
  | .value, token :: rest =>
    match token with
    | .null => read stack (.next .null) rest
    | .bool value => read stack (.next (.bool value)) rest
    | .number digits => read stack (.next (.number digits)) rest
    | .string units => read stack (.next (.string units)) rest
    | .openBracket => read stack .firstItem rest
    | .openBrace => read stack .firstKey rest
    | _ => none

/-- The value of a document: one value, with nothing but blanks around it. -/
def ofText? (t : Text) : Option Value :=
  (Token.tokens? t).bind (read [] .value)

end Value

end TaskGrammar.Json
