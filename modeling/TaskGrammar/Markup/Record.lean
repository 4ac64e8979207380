import TaskGrammar.Markup.Reading

/-!
# `TaskGrammar.Markup.Record`: what an element holds

A `Layout` names the parts that a reader asks an element for, and `Layout.read` gives
them as a `Record`: values by name, and the items of a list.

A value named `@x` is that of the attribute `x`, or the text of a child with the name
`@x`. The value `$text` is a run of text, or the text of a child `$text`. Any other
value is the text of a child. Nothing that a reader asks for may come twice. Names of
elements are compared without their prefix, except that all items of a list have the
prefix of the first one. The items stand together: after another element no further
item may come, and no text may follow an item. All other children are passed over, but
the references in every text between them must make sense.
-/

set_option autoImplicit false

namespace TaskGrammar.Markup

/-- What a reader makes of a child. -/
inductive Role (α : Type)
  /-- Its text is a value. -/
  | value
  /-- Its text is a value, unless a tag says that it has none. -/
  | option
  /-- It is an item, read from its attributes and children. -/
  | item (read : Text → List Node → Reading α)

/-- What a reader asks for, by name. -/
abbrev Layout (α : Type) := List (Text × Role α)

/-- A value as it is found. -/
inductive Value
  /-- The value of an attribute, its references as written. -/
  | quoted (raw : Text)
  | text (content : Text)
  /-- A value that is said not to be there. -/
  | missing
  deriving DecidableEq, Repr

/-- What a reader finds, in order. -/
structure Record (α : Type) where
  values : List (Text × Value)
  items : List α

namespace Record

/-- The record of nothing. -/
def empty {α : Type} : Record α :=
  { values := [], items := [] }

/-- The record of one value. -/
def ofValue {α : Type} (name : Text) (value : Value) : Record α :=
  { values := [(name, value)], items := [] }

/-- The record of one item. -/
def ofItem {α : Type} (item : α) : Record α :=
  { values := [], items := [item] }

/-- The record of the attributes of a tag. -/
def ofAttributes {α : Type} (attributes : List Attribute) : Record α :=
  { values := attributes.map fun entry => ('@' :: entry.name, .quoted entry.raw), items := [] }

/-- The record of what is found first, and then of what is found after it. -/
def append {α : Type} (first second : Record α) : Record α :=
  { values := first.values ++ second.values, items := first.items ++ second.items }

end Record

/-- How far a reader is past the items of a list. -/
inductive Progress
  | before
  /-- Among the items; the name of the first one, prefix included. -/
  | among (name : Text)
  | after
  deriving DecidableEq, Repr

namespace Progress

/-- How far a reader is after an element; none, if it is an item apart from the others. -/
def pass? (name : Text) (isItem : Bool) : Progress → Option Progress
  | before => some (if isItem then among name else before)
  | among first =>
    if !isItem then some after else if name = first then some (among first) else none
  | after => if isItem then none else some after

/-- Whether the last element was an item. -/
def isAmong : Progress → Bool
  | among _ => true
  | before => false
  | after => false

end Progress

namespace Layout

/-- Whether an element of the given name is an item. -/
def isItem {α : Type} (layout : Layout α) (name : Text) : Bool :=
  match layout.lookup (localName name) with
  | some (.item _) => true
  | _ => false

/-- Reads a child, its start tag being past, and tells whether the run after it keeps the
blanks at its start. `parent` are the attributes of its parent. -/
def readChild {α : Type} (layout : Layout α) (parent name attributes : Text)
    (children : List Node) : Reading (Record α × Bool) :=
  let readValue : Reading (Record α × Bool) := do
    let text ← Reading.text children
    pure (.ofValue (localName name) (.text text), false)
  match layout.lookup (localName name) with
  | none => do
    let keepsBlanks ← Reading.passOver children
    pure (.empty, keepsBlanks)
  | some .value => readValue
  | some .option => do
    if ← Reading.isNil parent attributes children then
      let keepsBlanks ← Reading.passOver children
      pure (.ofValue (localName name) .missing, keepsBlanks)
    else readValue
  | some (.item read) => do
    let item ← read attributes children
    pure (.ofItem item, false)

/-- Reads the children of an element and its end tag. -/
def readChildren {α : Type} (layout : Layout α) (parent : Text) (progress : Progress)
    (keepsBlanks : Bool) : List Node → Reading (Record α)
  | [] => do
    Reading.leave
    pure .empty
  | .text run :: rest =>
    match (if keepsBlanks then run else run.trimStart).trimEnd with
    | [] => readChildren layout parent progress false rest
    | trimmed => do
      guard !progress.isAmong
      let text ← trimmed.text?
      let others ← readChildren layout parent progress false rest
      pure ((Record.ofValue "$text".toList (.text text)).append others)
  | .element name attributes children :: rest => do
    let progress ← progress.pass? name (layout.isItem name)
    Reading.enter attributes
    let (found, keepsBlanks) ← layout.readChild parent name attributes children
    let others ← readChildren layout parent progress keepsBlanks rest
    pure (found.append others)

/-- Reads an element, its start tag being past. -/
def read {α : Type} (layout : Layout α) (attributes : Text) (children : List Node) :
    Reading (Record α) := do
  let entries ← Attribute.ofText? attributes
  let found ← layout.readChildren attributes .before false children
  pure ((Record.ofAttributes entries).append found)

/-- Reads the root of a document. -/
def readRoot? {α : Type} (layout : Layout α) (source : Text) : Option (Record α) :=
  match Node.ofText? source with
  | some (.element _ attributes children) =>
    StateT.run' (do Reading.enter attributes; layout.read attributes children) []
  | _ => none

end Layout

namespace Value

/-- The text of a value, if it has one and its references can be resolved. -/
def text? : Value → Option Text
  | quoted raw => resolve? raw
  | text content => some content
  | missing => none

/-- The truth value that a value spells, without references. -/
def flag? : Value → Option Bool
  | quoted word | text word =>
    if word = "true".toList ∨ word = "1".toList then some true
    else if word = "false".toList ∨ word = "0".toList then some false
    else none
  | missing => none

end Value

namespace Record

/-- The value of a name: none, if there is none; there must not be two. -/
def value? {α : Type} (record : Record α) (name : Text) : Option (Option Value) :=
  match record.values.filter fun entry => entry.1 = name with
  | [] => some none
  | [entry] => some (some entry.2)
  | _ => none

/-- A text that may be missing. -/
def option? {α : Type} (record : Record α) (name : Text) : Option (Option Text) :=
  match record.value? name with
  | none => none
  | some none | some (some .missing) => some none
  | some (some value) => value.text?.map some

/-- A text that must be there. -/
def required? {α : Type} (record : Record α) (name : Text) : Option Text :=
  (record.option? name).bind id

/-- A text that is empty where it is missing. -/
def optional? {α : Type} (record : Record α) (name : Text) : Option Text :=
  (record.option? name).map (·.getD [])

/-- A truth value that is false where it is missing. -/
def flag? {α : Type} (record : Record α) (name : Text) : Option Bool :=
  match record.value? name with
  | none => none
  | some none => some false
  | some (some value) => value.flag?

end Record

end TaskGrammar.Markup
