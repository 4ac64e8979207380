import TaskGrammar.Task
import TaskGrammar.Tier

/-!
# `TaskGrammar.Entity.Basic`: what a sentence can mention

The people, gestures, places, object categories, objects and questions of a
session. Each kind is an `Entity`: it has a name, which goes into the sentence, and
metadata, which goes with it.
-/

set_option autoImplicit false

namespace TaskGrammar

/-- What can be mentioned in a sentence: a name, and remarks about it. -/
class Entity (α : Type) where
  name : α → Text
  metadata : α → List Text

/-- The token that mentions an entity. -/
def Entity.token {α : Type} [Entity α] (entity : α) : Token :=
  { text := Entity.name entity, metadata := Entity.metadata entity }

/-- The gender that a first name is given to. -/
inductive Gender
  | female
  | male
  deriving DecidableEq, Repr

/-- The word for a gender. -/
def Gender.name : Gender → Text
  | female => "Female".toList
  | male => "Male".toList

/-- A person's first name. -/
structure PersonName where
  name : Text
  gender : Gender
  deriving DecidableEq, Repr

instance : Entity PersonName where
  name := PersonName.name
  metadata person := ["gender: ".toList ++ person.gender.name]

/-- A gesture, described as in "the person waving". -/
structure Gesture where
  name : Text
  tier : Tier
  deriving DecidableEq, Repr

instance : Entity Gesture where
  name := Gesture.name
  metadata gesture := ["difficulty: ".toList ++ gesture.tier.name]

/-- A room, or a place inside a room. -/
structure Location where
  name : Text
  /-- The room around a place; a room has none. -/
  room : Option Text
  isBeacon : Bool
  isPlacement : Bool
  deriving DecidableEq, Repr

namespace Location

/-- A room. -/
def ofRoom (name : Text) : Location :=
  { name := name, room := none, isBeacon := false, isPlacement := false }

/-- A place inside a room. -/
def inside (name room : Text) (isBeacon isPlacement : Bool) : Location :=
  { name := name, room := some room, isBeacon := isBeacon, isPlacement := isPlacement }

/-- Whether the location is a room. -/
def isRoom (location : Location) : Bool :=
  location.room.isNone

/-- What a place inside a room is for. -/
def purpose (location : Location) : Text :=
  match location.isBeacon, location.isPlacement with
  | true, true => "beacon, placement".toList
  | true, false => "beacon".toList
  | false, true => "placement".toList
  | false, false => "location".toList

end Location

instance : Entity Location where
  name := Location.name
  metadata location :=
    match location.room with
    | none => ["type: room".toList]
    | some room => ["type: ".toList ++ location.purpose, "room: ".toList ++ room]

/-- A category of objects and where they are kept. -/
structure Category where
  name : Text
  defaultLocation : Text
  room : Text
  deriving DecidableEq, Repr

instance : Entity Category where
  name := Category.name
  metadata category :=
    ["default location: ".toList ++ category.defaultLocation, "room: ".toList ++ category.room]

/-- How well a robot knows an object beforehand. -/
inductive Familiarity
  | known
  | alike
  | special
  deriving DecidableEq, Repr

/-- The familiarity that a word names; no word stands for `known`. -/
def Familiarity.ofName? (word : Text) : Option Familiarity :=
  let key := Text.normalize word
  if key = [] ∨ key = "known".toList then some known
  else if key = "alike".toList then some alike
  else if key = "special".toList then some special
  else none

/-- An object that can be fetched or found. -/
structure Object where
  name : Text
  familiarity : Familiarity
  category : Category
  deriving DecidableEq, Repr

instance : Entity Object where
  name := Object.name
  metadata object :=
    ["category: ".toList ++ object.category.name,
      "default location: ".toList ++ object.category.defaultLocation ++ " (".toList ++
        object.category.room ++ ")".toList]

/-- A question that may be put to the robot, with its answer. -/
structure Question where
  question : Text
  answer : Text
  deriving DecidableEq, Repr

instance : Entity Question where
  name := Question.question
  metadata question := ["answer: ".toList ++ question.answer]

end TaskGrammar
