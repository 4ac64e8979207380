import TaskGrammar.Proofs.Markup.PlainReading

/-!
# `TaskGrammar.Proofs.Markup.Tree`: documents as trees

The tags of a document have to match. `Tree.readAll?` reads the bytes of a document plainly
and makes trees of its events; it fails unless every start tag has its end tag.

* `Tree.Builds`: events that are read as certain trees, wherever they stand.
* `Tree.readAll?_encode_renderAll`: a document whose events build trees is read as these.
-/

set_option autoImplicit false

namespace TaskGrammar.Markup

/-- A text, an element, or an element that is written as an empty one. -/
inductive Tree
  | text (content : Text)
  | element (name : Text) (attributes : List (Text × Text)) (children : List Tree)
  | emptyElement (name : Text) (attributes : List (Text × Text))

namespace Tree

/-- An element that is still open, and what stands before it, in reverse. -/
structure Frame where
  name : Text
  attributes : List (Text × Text)
  before : List Tree

/-- Matches the tags among events. `frames` are the open elements, the innermost first, and
`siblings` what has been read in the innermost one, in reverse. -/
def build? (frames : List Frame) (siblings : List Tree) : List Event → Option (List Tree)
  | [] => if frames.isEmpty then some siblings.reverse else none
  | .text content :: rest => build? frames (text content :: siblings) rest
  | .emptyTag name attributes :: rest =>
    build? frames (emptyElement name attributes :: siblings) rest
  | .startTag name attributes :: rest =>
    build? ({ name := name, attributes := attributes, before := siblings } :: frames) [] rest
  | .endTag name :: rest =>
    match frames with
    | [] => none
    | frame :: frames =>
      if frame.name = name then
        build? frames (element frame.name frame.attributes siblings.reverse :: frame.before) rest
      else none
  | .declaration :: _ => none

/-- Reads a document plainly: its tags must match, the references in texts and attribute
values are resolved, and a text is left out only if it is all blank and has a line break. -/
def readAll? (bytes : Bytes) : Option (List Tree) := do
  let events ← Event.readAll? (← Text.decode? bytes)
  build? [] [] (Event.withoutLayout events)

/-- Events that are read as trees, wherever they stand. What is open around them and what stands
before them does not matter, so the events of a document can be matched part by part. -/
def Builds (events : List Event) (trees : List Tree) : Prop :=
  ∀ frames siblings rest,
    build? frames siblings (events ++ rest) = build? frames (trees.reverse ++ siblings) rest

/-- No events build nothing. -/
theorem Builds.nil : Builds [] [] :=
  fun _ _ _ => rfl

/-- Events in a row build what they build one after the other. -/
theorem Builds.append {first second : List Event} {trees trees' : List Tree}
    (h : Builds first trees) (h' : Builds second trees') :
    Builds (first ++ second) (trees ++ trees') := by
  intro frames siblings rest
  rw [List.append_assoc, h, h', List.reverse_append, List.append_assoc]

/-- A list of parts, each of which builds a tree, builds the list of these. -/
theorem Builds.flatMap {α : Type} {f : α → List Event} {g : α → Tree} (l : List α)
    (h : ∀ a ∈ l, Builds (f a) [g a]) : Builds (l.flatMap f) (l.map g) := by
  induction l with
  | nil => exact .nil
  | cons a l ih =>
    rw [List.forall_mem_cons] at h
    exact h.1.append (ih h.2)

/-- A text builds itself. -/
theorem builds_text (content : Text) : Builds [.text content] [text content] :=
  fun _ _ _ => rfl

/-- So does an element that is one tag. -/
theorem builds_emptyTag (name : Text) (attributes : List (Text × Text)) :
    Builds [.emptyTag name attributes] [emptyElement name attributes] :=
  fun _ _ _ => rfl

/-- Matching tags make an element of what is between them. It is the only step at which elements
are open, and they are closed again within it. -/
theorem Builds.element {events : List Event} {trees : List Tree} (h : Builds events trees)
    (name : Text) (attributes : List (Text × Text)) :
    Builds ([.startTag name attributes] ++ events ++ [.endTag name])
      [.element name attributes trees] := by
  intro frames siblings rest
  rw [List.append_assoc, List.append_assoc, List.singleton_append, build?, h, List.singleton_append,
    build?]
  simp

/-- Events that are read as trees are, on their own, read as these. -/
theorem Builds.build? {events : List Event} {trees : List Tree} (h : Builds events trees) :
    build? [] [] events = some trees := by
  have hall := h [] [] []
  rw [List.append_nil, List.append_nil] at hall
  rw [hall, Tree.build?, List.reverse_reverse]
  rfl

end Tree

/-- A document of tags that match is read plainly as the trees of its events. The three steps are
those of the reader: bytes to text, text to events without layout, and events to trees. -/
theorem Tree.readAll?_encode_renderAll {events : List Event} {trees : List Tree}
    (hplain : ∀ event ∈ events, event.IsPlain)
    (htexts : ∀ content, Event.text content ∈ events → '\n' ∉ content)
    (hbuilds : Builds (Event.joined events) trees) :
    readAll? (Text.encode (Event.renderAll (.declaration :: events))) = some trees := by
  rw [readAll?, Text.decode?_encode]
  simp only [Option.bind_eq_bind, Option.bind_some, Event.readAll?_renderAll hplain,
    (Event.withoutLayout_joined_laidOut htexts 0).1, hbuilds.build?]

end TaskGrammar.Markup
