import TaskGrammar.Markup.Reference

/-!
# `TaskGrammar.Markup.Writer`: documents as text

A document is written event by event. Each tag starts a line of its own, indented by
one tab for each element that is open around it, except the first one of the document
and one that follows text: inside an element, blanks next to text would become part of
it. The depth grows after a start tag and shrinks before an end tag.
-/

set_option autoImplicit false

namespace TaskGrammar.Markup

/-- A step in writing a document. -/
inductive Event
  /-- The declaration of a document in UTF-8. -/
  | declaration
  | startTag (name : Text) (attributes : List (Text × Text))
  | emptyTag (name : Text) (attributes : List (Text × Text))
  | endTag (name : Text)
  | text (content : Text)
  deriving DecidableEq, Repr

namespace Event

/-- An attribute as it stands in a tag, after a blank. -/
def renderAttribute (entry : Text × Text) : Text :=
  [' '] ++ entry.1 ++ ['=', '"'] ++ entry.2.flatMap escapeInValue ++ ['"']

/-- A tag's name and attributes. -/
def renderTag (name : Text) (attributes : List (Text × Text)) : Text :=
  name ++ attributes.flatMap renderAttribute

/-- An event without the line break before it. -/
def render : Event → Text
  | declaration => "<?xml version=\"1.0\" encoding=\"utf-8\"?>".toList
  | startTag name attributes => ['<'] ++ renderTag name attributes ++ ['>']
  | emptyTag name attributes => ['<'] ++ renderTag name attributes ++ ['/', '>']
  | endTag name => ['<', '/'] ++ name ++ ['>']
  | text content => content.flatMap escapeInText

/-- The depth at which an event stands, `depth` elements being open before it. -/
def depthAt (depth : Nat) : Event → Nat
  | endTag _ => depth - 1
  | _ => depth

/-- The number of elements that are open after an event. -/
def depthAfter (depth : Nat) : Event → Nat
  | startTag _ _ => depth + 1
  | endTag _ => depth - 1
  | _ => depth

/-- Whether an event is text. -/
def isText : Event → Bool
  | text _ => true
  | _ => false

/-- What stands before an event: a line break and the indentation, unless the event is
text or follows text. -/
def separator (depth : Nat) (breaksLine : Bool) (event : Event) : Text :=
  if breaksLine && !event.isText then '\n' :: List.replicate (event.depthAt depth) '\t' else []

/-- Writes events, `depth` elements being open; `breaksLine` tells whether a tag starts
a line. -/
def renderFrom (depth : Nat) (breaksLine : Bool) : List Event → Text
  | [] => []
  | event :: rest =>
    event.separator depth breaksLine ++ event.render ++
      renderFrom (event.depthAfter depth) (!event.isText) rest

/-- The document that the events write. -/
def renderAll (events : List Event) : Text :=
  renderFrom 0 false events

end Event

end TaskGrammar.Markup
