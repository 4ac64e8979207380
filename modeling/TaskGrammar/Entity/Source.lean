import TaskGrammar.Entity.Basic
import TaskGrammar.Fault
import TaskGrammar.Markup.Record

/-!
# `TaskGrammar.Entity.Source`: dataset files

Each kind of entity has a file of markup:

    <categories>
      <category name="drinks" defaultLocation="bar" room="kitchen">
        <object name="coke" type="known"/>
      </category>
    </categories>
    <names><name gender="Female">Susan</name></names>
    <rooms>
      <room name="kitchen"><location name="fridge" isPlacement="true"/></room>
    </rooms>
    <gestures><gesture name="waving" difficulty="Easy"/></gestures>
    <questions><question><q>Who are you?</q><a>A robot</a></question></questions>

The name of the root does not matter, and other elements and attributes are passed
over. Each kind of element has a `layout`, and a function that `read`s it. A reader of
files such as `parseObjects` first takes a whole file apart and then looks at the words
in it, so a file that is not markup is reported before a word that is unknown.
-/

set_option autoImplicit false

namespace TaskGrammar

open Markup

/-- The items of a given name in the root of a file. -/
def rootItems {α : Type} (name : Text) (read : Text → List Node → Reading α) (source : Text) :
    Except Fault (List α) :=
  match Layout.readRoot? [(name, .item read)] source with
  | some record => .ok record.items
  | none => .error .malformedMarkup

/-- An object as its file has it. -/
structure ObjectEntry where
  name : Text
  familiarity : Text
  deriving DecidableEq, Repr

/-- A category as its file has it. -/
structure CategoryEntry where
  name : Text
  defaultLocation : Text
  room : Text
  objects : List ObjectEntry
  deriving DecidableEq, Repr

/-- What a file says of an object. -/
def ObjectEntry.layout : Layout Empty :=
  [("@name".toList, .value), ("@type".toList, .value)]

/-- Reads the element of an object. -/
def ObjectEntry.read (attributes : Text) (children : List Node) : Reading ObjectEntry := do
  let record ← layout.read attributes children
  let name ← record.required? "@name".toList
  let familiarity ← record.optional? "@type".toList
  pure { name := name, familiarity := familiarity }

/-- What a file says of a category. -/
def CategoryEntry.layout : Layout ObjectEntry :=
  [("@name".toList, .value), ("@defaultLocation".toList, .value), ("@room".toList, .value),
    ("object".toList, .item ObjectEntry.read)]

/-- Reads the element of a category. -/
def CategoryEntry.read (attributes : Text) (children : List Node) : Reading CategoryEntry := do
  let record ← layout.read attributes children
  let name ← record.required? "@name".toList
  let defaultLocation ← record.optional? "@defaultLocation".toList
  let room ← record.optional? "@room".toList
  pure { name := name, defaultLocation := defaultLocation, room := room, objects := record.items }

/-- The category of an entry. -/
def CategoryEntry.category (entry : CategoryEntry) : Category :=
  { name := Text.trim entry.name, defaultLocation := Text.trim entry.defaultLocation,
    room := Text.trim entry.room }

/-- The object of an entry. -/
def ObjectEntry.object (category : Category) (entry : ObjectEntry) : Except Fault Object :=
  match Familiarity.ofName? entry.familiarity with
  | some familiarity =>
    .ok { name := Text.trim entry.name, familiarity := familiarity, category := category }
  | none => .error (.unknownFamiliarity entry.name entry.familiarity)

/-- The objects of an entry's category. -/
def CategoryEntry.toObjects (entry : CategoryEntry) : Except Fault (List Object) :=
  entry.objects.mapM (ObjectEntry.object entry.category)

/-- The objects of a file, category by category. -/
def parseObjects (source : Text) : Except Fault (List Object) := do
  let entries ← rootItems "category".toList CategoryEntry.read source
  let objects ← entries.mapM CategoryEntry.toObjects
  pure objects.flatten

/-- A first name as its file has it. -/
structure NameEntry where
  name : Text
  gender : Text
  deriving DecidableEq, Repr

/-- What a file says of a first name. -/
def NameEntry.layout : Layout Empty :=
  [("@gender".toList, .value), ("$text".toList, .value)]

/-- Reads the element of a first name, which is one run of text. -/
def NameEntry.read (attributes : Text) (children : List Node) : Reading NameEntry := do
  let record ← layout.read attributes children
  let gender ← record.optional? "@gender".toList
  let name ← record.required? "$text".toList
  pure { name := name, gender := gender }

/-- The gender that a word names, whatever its case and the blanks around it. -/
def Gender.ofName? (word : Text) : Option Gender :=
  [female, male].find? fun gender => Text.normalize word == Text.normalize gender.name

/-- The first name of an entry. -/
def NameEntry.personName (entry : NameEntry) : Except Fault PersonName :=
  match Gender.ofName? entry.gender with
  | some gender => .ok { name := Text.trim entry.name, gender := gender }
  | none => .error (.unknownGender entry.name (Text.normalize entry.gender))

/-- The first names of a file. -/
def parseNames (source : Text) : Except Fault (List PersonName) := do
  let entries ← rootItems "name".toList NameEntry.read source
  entries.mapM NameEntry.personName

/-- A place as its file has it. -/
structure PlaceEntry where
  name : Text
  isBeacon : Bool
  isPlacement : Bool
  deriving DecidableEq, Repr

/-- A room as its file has it. -/
structure RoomEntry where
  name : Text
  places : List PlaceEntry
  deriving DecidableEq, Repr

/-- What a file says of a place. -/
def PlaceEntry.layout : Layout Empty :=
  [("@name".toList, .value), ("@isBeacon".toList, .value), ("@isPlacement".toList, .value)]

/-- Reads the element of a place. -/
def PlaceEntry.read (attributes : Text) (children : List Node) : Reading PlaceEntry := do
  let record ← layout.read attributes children
  let name ← record.required? "@name".toList
  let isBeacon ← record.flag? "@isBeacon".toList
  let isPlacement ← record.flag? "@isPlacement".toList
  pure { name := name, isBeacon := isBeacon, isPlacement := isPlacement }

/-- What a file says of a room. -/
def RoomEntry.layout : Layout PlaceEntry :=
  [("@name".toList, .value), ("location".toList, .item PlaceEntry.read)]

/-- Reads the element of a room. -/
def RoomEntry.read (attributes : Text) (children : List Node) : Reading RoomEntry := do
  let record ← layout.read attributes children
  let name ← record.required? "@name".toList
  pure { name := name, places := record.items }

/-- The location of a place in a room. -/
def PlaceEntry.location (room : Text) (entry : PlaceEntry) : Location :=
  Location.inside (Text.trim entry.name) room entry.isBeacon entry.isPlacement

/-- The locations of an entry: the room, then the places in it. -/
def RoomEntry.locations (entry : RoomEntry) : List Location :=
  Location.ofRoom (Text.trim entry.name) ::
    entry.places.map (PlaceEntry.location (Text.trim entry.name))

/-- The locations of a file, room by room. -/
def parseLocations (source : Text) : Except Fault (List Location) := do
  let entries ← rootItems "room".toList RoomEntry.read source
  pure (entries.flatMap RoomEntry.locations)

/-- A gesture as its file has it. -/
structure GestureEntry where
  name : Text
  tier : Option Text
  deriving DecidableEq, Repr

/-- What a file says of a gesture. -/
def GestureEntry.layout : Layout Empty :=
  [("@name".toList, .value), ("@difficulty".toList, .option)]

/-- Reads the element of a gesture. -/
def GestureEntry.read (attributes : Text) (children : List Node) : Reading GestureEntry := do
  let record ← layout.read attributes children
  let name ← record.required? "@name".toList
  let tier ← record.option? "@difficulty".toList
  pure { name := name, tier := tier }

/-- The gesture of an entry; without a word for it, the tier is unknown. -/
def GestureEntry.gesture (entry : GestureEntry) : Except Fault Gesture :=
  match entry.tier with
  | none => .ok { name := Text.trim entry.name, tier := .unknown }
  | some word =>
    match Tier.ofName? word with
    | some tier => .ok { name := Text.trim entry.name, tier := tier }
    | none => .error (.unknownTier (Text.normalize word))

/-- The gestures of a file. -/
def parseGestures (source : Text) : Except Fault (List Gesture) := do
  let entries ← rootItems "gesture".toList GestureEntry.read source
  entries.mapM GestureEntry.gesture

/-- What a file says of a question. -/
def Question.layout : Layout Empty :=
  [("q".toList, .value), ("a".toList, .value)]

/-- Reads the element of a question. -/
def Question.read (attributes : Text) (children : List Node) : Reading Question := do
  let record ← layout.read attributes children
  let question ← record.required? "q".toList
  let answer ← record.required? "a".toList
  pure { question := Text.trim question, answer := Text.trim answer }

/-- The questions of a file. -/
def parseQuestions (source : Text) : Except Fault (List Question) :=
  rootItems "question".toList Question.read source

end TaskGrammar
