import Std.Data.HashMap
import TaskGrammar.Entity.Basic

/-!
# `TaskGrammar.Entity.Dataset`: entities with an index by name

A dataset keeps its entities in the given order, those that share a name included.
Its index sends each name to the position of the first entity that has it, so a
lookup answers with the entity that was given first.
-/

set_option autoImplicit false

namespace TaskGrammar

/-- A list of entities and the position of the first entity of each name. -/
structure Dataset (α : Type) where
  items : List α
  index : Std.HashMap Text Nat

namespace Dataset

variable {α : Type} [Entity α]

/-- Adds the entities from a position on to an index; a name that is there keeps its
position. -/
def extendIndex (index : Std.HashMap Text Nat) (position : Nat) :
    List α → Std.HashMap Text Nat
  | [] => index
  | item :: rest =>
    extendIndex (index.insertIfNew (Entity.name item) position) (position + 1) rest

/-- The dataset of a list of entities. -/
def ofList (items : List α) : Dataset α :=
  { items := items, index := extendIndex ∅ 0 items }

/-- The dataset without entities. -/
def empty : Dataset α :=
  ofList []

/-- The first entity of a name. -/
def get? (dataset : Dataset α) (name : Text) : Option α :=
  dataset.index[name]?.bind fun position => dataset.items[position]?

/-- Whether some entity has the name. -/
def contains (dataset : Dataset α) (name : Text) : Bool :=
  dataset.index.contains name

/-- How many entities there are, those that share a name counted each. -/
def size (dataset : Dataset α) : Nat :=
  dataset.items.length

/-- The names of the entities, in order. -/
def names (dataset : Dataset α) : List Text :=
  dataset.items.map Entity.name

end Dataset

end TaskGrammar
