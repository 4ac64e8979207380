import TaskGrammar.Fault
import TaskGrammar.Json.Value

/-!
# `TaskGrammar.Settings`: what a generator can be told

Settings are read from JSON: a record with any of the three keys, or a list of up to
three values in the order of the fields. What is not given keeps its default. A key
may come once; other keys are passed over.
-/

set_option autoImplicit false

namespace TaskGrammar

/-- The settings of a generator. -/
structure Settings where
  /-- How many rules may be nested. -/
  maxDepth : UInt64
  /-- Whether the places of categories are checked before anything is generated. -/
  checkPlaces : Bool
  /-- The seed of a replayable random source. -/
  seed : Option UInt64
  deriving DecidableEq, Repr

namespace Settings

/-- The settings where nothing is given. -/
def standard : Settings :=
  { maxDepth := 100, checkPlaces := false, seed := none }

/-- The keys of the fields, in their order. -/
inductive Key
  | maxDepth
  | checkPlaces
  | seed
  deriving DecidableEq, Repr

/-- The spelling of a key. -/
def Key.name : Key → Text
  | maxDepth => "max_recursion_depth".toList
  | checkPlaces => "validate_locations".toList
  | seed => "seed".toList

/-- All keys, in the order of the fields. -/
def Key.all : List Key :=
  [maxDepth, checkPlaces, seed]

/-- Sets one field to a value, if the value is of the field's kind. -/
def set? (settings : Settings) : Key → Json.Value → Option Settings
  | .maxDepth, .number digits => (Text.toWord? digits).map fun n => { settings with maxDepth := n }
  | .checkPlaces, .bool value => some { settings with checkPlaces := value }
  | .seed, .number digits => (Text.toWord? digits).map fun n => { settings with seed := some n }
  | .seed, .null => some { settings with seed := none }
  | _, _ => none

/-- Sets the fields of a record's members in turn; `given` are the keys already seen. -/
def setMembers? (settings : Settings) (given : List Key) :
    List (List Json.StringUnit × Json.Value) → Option Settings
  | [] => some settings
  | (units, value) :: rest => do
    let name ← Json.textOfUnits? units
    match Key.all.find? fun key => key.name == name with
    | none => setMembers? settings given rest
    | some key =>
      if key ∈ given then none
      else setMembers? (← settings.set? key value) (key :: given) rest

/-- Sets the fields in order from a list of values. -/
def setItems? (settings : Settings) : List Key → List Json.Value → Option Settings
  | _, [] => some settings
  | [], _ :: _ => none
  | key :: keys, value :: values => do setItems? (← settings.set? key value) keys values

/-- The settings that a JSON value gives. -/
def ofValue? : Json.Value → Option Settings
  | .record members => setMembers? standard [] members
  | .list items => setItems? standard Key.all items
  | _ => none

/-- The settings that a JSON document gives. -/
def parse (source : Text) : Except Fault Settings :=
  match (Json.Value.ofText? source).bind ofValue? with
  | some settings => .ok settings
  | none => .error .malformedSettings

/-- The word for a truth value in JSON. -/
def boolText (value : Bool) : Text :=
  if value then "true".toList else "false".toList

/-- The settings as a JSON record without blanks, all fields in order. -/
def render (settings : Settings) : Text :=
  "\x7b\"max_recursion_depth\":".toList ++ Text.ofNat settings.maxDepth.toNat ++
    ",\"validate_locations\":".toList ++ boolText settings.checkPlaces ++
    ",\"seed\":".toList ++
    (match settings.seed with
    | none => "null".toList
    | some seed => Text.ofNat seed.toNat) ++
    "\x7d".toList

end Settings

end TaskGrammar
