import TaskGrammar.Markup.Namespace
import TaskGrammar.Markup.Node

/-!
# `TaskGrammar.Markup.Reading`: going through an element

A reader goes through the children of an element in order. A `Reading` knows the
declarations that are in scope there, and fails where a tag declares what is not
allowed.

* `text` reads an element that holds nothing but text.
* `passOver` goes past an element that nobody asks for. It looks at the start of the
  element, just far enough to know what comes next: references in the text that comes
  first must make sense, and so must the declarations of the tags on the way. The rest
  of the element is not examined.
* `isNil` tells whether an element is marked as having no value.

A run of nothing but blanks is no text, and the blanks at the ends of a text do not
belong to it. There is one exception: after an element that is passed over, a run keeps
the blanks at its start if the first element in the former one stands before text.
-/

set_option autoImplicit false

namespace TaskGrammar.Markup

/-- Whether a node is a run of nothing but blanks. -/
def Node.isBlank : Node → Bool
  | .text run => run.trimStart = []
  | .element _ _ _ => false

/-- The text among nodes that are no elements; at most one of them is more than blanks. -/
def Node.text? : List Node → Option Text
  | [] => some []
  | .element _ _ _ :: _ => none
  | .text run :: rest =>
    if run.trimStart = [] then Node.text? rest
    else if rest.all Node.isBlank then run.trimStart.trimEnd.text?
    else none

/-- The attributes of the tag that comes first among nodes, if nothing but blanks is
before it. -/
def Node.tagAhead? : List Node → Option Text
  | .element _ attributes _ :: _ => some attributes
  | .text run :: .element _ attributes _ :: _ =>
    if run.trimStart = [] then some attributes else none
  | _ => none

/-- A computation that reads nodes with the declarations in scope, and that may fail. -/
abbrev Reading (α : Type) := StateT Scopes Option α

namespace Reading

/-- Goes past a start tag. -/
def enter (attributes : Text) : Reading Unit := fun scopes =>
  (scopes.enter? attributes).map fun scopes' => ((), scopes')

/-- Goes past an end tag. -/
def leave : Reading Unit :=
  modify List.tail

/-- Goes past the tag that comes first among the rest of an element's children: the end
tag, where nothing is left. Two runs in a row have a type declaration between them,
which is no tag. -/
def passTag : List Node → Reading Unit
  | [] => leave
  | .element _ attributes _ :: _ => enter attributes
  | .text _ :: _ => pure ()

/-- Looks at what comes next, and goes past it if it is a tag; whether it is text.
`keepsBlanks` tells whether the blanks at the start of a run are text. -/
def passAhead (keepsBlanks : Bool) : List Node → Reading Bool
  | .text run :: rest =>
    if (if keepsBlanks then run else run.trimStart) = [] then do
      passTag rest
      pure false
    else pure true
  | nodes => do
    passTag nodes
    pure false

/-- Passes over an element with the given children, its start tag being past; whether
the run after it keeps the blanks at its start. The tags that are looked at in it are
left open if the reader gives up before their end tags. -/
def passOver : List Node → Reading Bool
  | [] => do
    leave
    pure false
  | .text run :: rest =>
    if run.trimStart = [] then passOver rest
    else do
      let _ ← run.trimStart.trimEnd.text?
      passTag rest
      pure false
  | .element _ attributes children :: rest => do
    enter attributes
    let keepsBlanks ← passAhead false children
    passAhead keepsBlanks rest

/-- Reads the text of an element that holds nothing else. -/
def text (children : List Node) : Reading Text := do
  let text ← Node.text? children
  leave
  pure text

/-- Whether an element has no value, as its own tag or the tag of its parent says. The
tag that comes first in the element is in scope, too. -/
def isNil (parent attributes : Text) (children : List Node) : Reading Bool := do
  let scopes ← get
  let scopes ← match Node.tagAhead? children with
    | some attributes => scopes.enter? attributes
    | none => some scopes
  pure (scopes.isNil parent || scopes.isNil attributes)

end Reading

end TaskGrammar.Markup
