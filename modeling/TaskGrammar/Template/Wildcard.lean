import TaskGrammar.Entity.Basic

/-!
# `TaskGrammar.Template.Wildcard`: what a placeholder stands for

A wildcard is written `{key parameters}` in a template. Its key decides what it
stands for, `Wildcard.Kind`: an entity of one of six collections, perhaps of a
narrower kind; nothing; or, for any other key, something that only another program
knows. `Wildcard.Kind.ruleId?` is the rule under which a speech document has it.
-/

set_option autoImplicit false

namespace TaskGrammar

/-- The collections of entities that a wildcard can draw from. -/
inductive Collection
  | gestures
  | names
  | locations
  | objects
  | categories
  | questions
  deriving DecidableEq, Repr

namespace Collection

/-- The id of the rule that lists a collection in a speech document. -/
def ruleId : Collection → Text
  | gestures => "__gestures__".toList
  | names => "__names__".toList
  | locations => "__locations__".toList
  | objects => "__objects__".toList
  | categories => "__categories__".toList
  | questions => "__questions__".toList

end Collection

/-- Which locations a wildcard asks for. -/
inductive LocationFilter
  | any
  | room
  | beacon
  | placement
  deriving DecidableEq, Repr

/-- Whether a location is one that the filter asks for. -/
def LocationFilter.admits : LocationFilter → Location → Bool
  | any, _ => true
  | room, location => location.isRoom
  | beacon, location => location.isBeacon
  | placement, location => location.isPlacement

/-- Which first names a wildcard asks for. -/
inductive NameFilter
  | any
  | female
  | male
  deriving DecidableEq, Repr

/-- Whether a first name is one that the filter asks for. -/
def NameFilter.admits : NameFilter → PersonName → Bool
  | any, _ => true
  | female, person => person.gender == .female
  | male, person => person.gender == .male

/-- Which objects a wildcard asks for. -/
inductive ObjectFilter
  | any
  | known
  | alike
  deriving DecidableEq, Repr

/-- Whether an object is one that the filter asks for. -/
def ObjectFilter.admits : ObjectFilter → Object → Bool
  | any, _ => true
  | known, object => object.familiarity == .known
  | alike, object => object.familiarity == .alike

/-- A placeholder in a template. -/
structure Wildcard where
  key : Text
  /-- The text between the key and the closing brace. -/
  params : Text
  /-- Whether the closing brace is there. -/
  terminated : Bool
  deriving DecidableEq, Repr

namespace Wildcard

/-- What a wildcard stands for. -/
inductive Kind
  | category
  | gesture
  | question
  | name (filter : NameFilter)
  | location (filter : LocationFilter)
  | object (filter : ObjectFilter)
  | void
  | other (key : Text)
  deriving DecidableEq, Repr

/-- The keys with a meaning of their own. -/
def keywords : List (Text × Kind) :=
  [("category".toList, .category), ("gesture".toList, .gesture),
    ("question".toList, .question),
    ("name".toList, .name .any), ("female".toList, .name .female),
    ("male".toList, .name .male),
    ("location".toList, .location .any), ("room".toList, .location .room),
    ("beacon".toList, .location .beacon), ("placement".toList, .location .placement),
    ("object".toList, .object .any), ("kobject".toList, .object .known),
    ("aobject".toList, .object .alike),
    ("void".toList, .void)]

/-- The kind that a key, in exactly this case, stands for. -/
def Kind.ofKey (key : Text) : Kind :=
  (keywords.lookup key).getD (.other key)

/-- What the wildcard stands for. -/
def kind (wildcard : Wildcard) : Kind :=
  .ofKey wildcard.key

/-- The collection that a kind of wildcard draws from. -/
def Kind.collection? : Kind → Option Collection
  | category => some .categories
  | gesture => some .gestures
  | question => some .questions
  | name _ => some .names
  | location _ => some .locations
  | object _ => some .objects
  | void => none
  | other _ => none

/-- The id of the rule that stands for a kind in a speech document: that of its
collection, an id made from an unknown key, and none for nothing. -/
def Kind.ruleId? : Kind → Option Text
  | void => none
  | other key => some ("__".toList ++ key ++ "__".toList)
  | kind => kind.collection?.map Collection.ruleId

/-- The remark that follows `meta:` in the parameters, if it has a visible
character. -/
def metadata (wildcard : Wildcard) : Option Text :=
  match Text.after? "meta:".toList wildcard.params with
  | none => none
  | some rest => if Text.trim rest = [] then none else some (Text.trim rest)

end Wildcard

/-- Whether an id has the shape `__key__` that is kept for generated rules: two
underscores at each end and something between them. -/
def isReservedId (id : Text) : Bool :=
  decide (4 < Text.utf8Length id) && "__".toList.isPrefixOf id && "__".toList.isSuffixOf id

end TaskGrammar
