import TaskGrammar.Markup.Token

/-!
# `TaskGrammar.Markup.Node`: elements and runs of text

`Node.ofText?` reads the first element of a document, its root. Start and end tags
must match, and nothing but blanks and asides may come before the root. What follows
the root is never looked at.

The text between two tags is one run, whatever asides are in it; a document type
declaration ends a run and starts another one. Runs are kept with all their blanks, so
that whoever reads them can decide which of them matter (`trimStart`, `trimEnd`).

The reader goes through the tokens once, with a stack of the elements that are open.
-/

set_option autoImplicit false

namespace TaskGrammar.Markup

/-- A part of a run of text. -/
inductive Piece
  /-- Character data, its references as written. -/
  | data (raw : Text)
  /-- Text that stands for itself. -/
  | verbatim (text : Text)
  deriving DecidableEq, Repr

/-- The text of a piece, if its references can be resolved. -/
def Piece.text? : Piece → Option Text
  | data raw => resolve? raw
  | verbatim text => some text

/-- A run of text, piece by piece. -/
abbrev Run := List Piece

namespace Run

/-- The text of a run, if its references can be resolved. -/
def text? (run : Run) : Option Text :=
  (run.mapM Piece.text?).map List.flatten

/-- The run without the blanks that it starts with, as far as they are character
data. -/
def trimStart : Run → Run
  | .data raw :: rest =>
    match raw.dropWhile isBlank with
    | [] => trimStart rest
    | trimmed => .data trimmed :: rest
  | run => run

/-- The run without the blanks that its last piece ends with, if that is character
data. -/
def trimEnd : Run → Run
  | [] => []
  | [.data raw] =>
    match Text.dropEndWhile isBlank raw with
    | [] => []
    | trimmed => [.data trimmed]
  | piece :: rest => piece :: trimEnd rest

end Run

/-- A run of text, or an element with its attributes as written. -/
inductive Node
  | text (run : Run)
  | element (name attributes : Text) (children : List Node)

/-- An element that is still open: its children so far and the run at hand, both in
reverse. -/
structure OpenElement where
  name : Text
  attributes : Text
  children : List Node
  run : Run

namespace OpenElement

/-- An element whose start tag has been read. -/
def ofTag (name attributes : Text) : OpenElement :=
  { name := name, attributes := attributes, children := [], run := [] }

/-- Adds a piece to the run at hand. -/
def addPiece (element : OpenElement) (piece : Piece) : OpenElement :=
  { element with run := piece :: element.run }

/-- Ends the run at hand, be it without a piece. -/
def endRun (element : OpenElement) : OpenElement :=
  { element with children := .text element.run.reverse :: element.children, run := [] }

/-- Adds a child after the run at hand. -/
def addChild (element : OpenElement) (child : Node) : OpenElement :=
  { element.endRun with children := child :: element.endRun.children }

/-- The element once its end tag has been read. -/
def close (element : OpenElement) : Node :=
  .element element.name element.attributes element.endRun.children.reverse

end OpenElement

namespace Node

/-- Reads the rest of the elements on the stack, the innermost first; the root is the
outermost of them, or the first one to come. -/
def read? (stack : List OpenElement) : List Token → Option Node
  | [] => none
  | token :: rest =>
    match token, stack with
    | .aside, stack => read? stack rest
    | .malformed, _ => none
    | .openTag name attributes true, [] => some (.element name attributes [])
    | .openTag name attributes true, inner :: outer =>
      read? (inner.addChild (.element name attributes []) :: outer) rest
    | .openTag name attributes false, [] => read? [.ofTag name attributes] rest
    | .openTag name attributes false, inner :: outer =>
      read? (.ofTag name attributes :: inner :: outer) rest
    | .closeTag _, [] => none
    | .closeTag name, [inner] => if name = inner.name then some inner.close else none
    | .closeTag name, inner :: parent :: outer =>
      if name = inner.name then read? (parent.addChild inner.close :: outer) rest else none
    | .data raw, [] => if raw.all isBlank then read? [] rest else none
    | .data raw, inner :: outer => read? (inner.addPiece (.data raw) :: outer) rest
    | .verbatim _, [] => none
    | .verbatim content, inner :: outer =>
      read? (inner.addPiece (.verbatim content) :: outer) rest
    -- A type declaration parts the runs around it, as a tag does.
    | .doctype, [] => read? [] rest
    | .doctype, inner :: outer => read? (inner.endRun :: outer) rest

/-- The byte order mark, which may come before a document. -/
def byteOrderMark : Char :=
  '\uFEFF'

/-- The root element of a document. -/
def ofText? (t : Text) : Option Node :=
  read? [] (Token.tokens (if t.head? = some byteOrderMark then t.tail else t))

end Node

end TaskGrammar.Markup
