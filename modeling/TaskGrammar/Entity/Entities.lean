import TaskGrammar.Entity.Dataset
import TaskGrammar.Fault

/-!
# `TaskGrammar.Entity.Entities`: the datasets of a session

`Entities` holds one dataset for each kind of entity. Five of them are set from
lists; the categories are those of the objects, each under its name once, in the
order in which the objects show them. `Entities.checkPlaces` finds the places that
categories speak of and no location has.
-/

set_option autoImplicit false

namespace TaskGrammar

/-- The datasets that wildcards draw from. -/
structure Entities where
  gestures : Dataset Gesture
  names : Dataset PersonName
  locations : Dataset Location
  categories : Dataset Category
  objects : Dataset Object
  questions : Dataset Question

/-- Adds a category to a list unless its name is there. -/
def Category.addNew (categories : List Category) (category : Category) : List Category :=
  if categories.any fun other => other.name == category.name then
    categories
  else
    categories ++ [category]

/-- The categories of a list of objects: the first one seen of each name. -/
def Category.ofObjects (objects : List Object) : List Category :=
  (objects.map Object.category).foldl addNew []

namespace Entities

/-- No entities at all. -/
def empty : Entities :=
  { gestures := .empty, names := .empty, locations := .empty,
    categories := .empty, objects := .empty, questions := .empty }

/-- Replaces the gestures. -/
def withGestures (entities : Entities) (gestures : List Gesture) : Entities :=
  { entities with gestures := .ofList gestures }

/-- Replaces the first names. -/
def withNames (entities : Entities) (names : List PersonName) : Entities :=
  { entities with names := .ofList names }

/-- Replaces the locations, rooms and places alike. -/
def withLocations (entities : Entities) (locations : List Location) : Entities :=
  { entities with locations := .ofList locations }

/-- Replaces the objects, and with them the categories. -/
def withObjects (entities : Entities) (objects : List Object) : Entities :=
  { entities with
    categories := .ofList (Category.ofObjects objects), objects := .ofList objects }

/-- Replaces the questions. -/
def withQuestions (entities : Entities) (questions : List Question) : Entities :=
  { entities with questions := .ofList questions }

/-- The places of a category that are named but not among the locations. -/
def placesMissingFrom (locations : Dataset Location) (category : Category) :
    List (Text × Text) :=
  ([category.defaultLocation, category.room].filter fun place =>
    !place.isEmpty && !locations.contains place).map fun place => (place, category.name)

/-- Fails when a category speaks of a place that no location has. -/
def checkPlaces (entities : Entities) : Except Fault Unit :=
  match entities.categories.items.flatMap (placesMissingFrom entities.locations) with
  | [] => .ok ()
  | places => .error (.unknownPlaces places)

end Entities

end TaskGrammar
