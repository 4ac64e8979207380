import TaskGrammar.Entity.Entities

/-!
# `TaskGrammar.Proofs.Entity.Built`: datasets set one by one

The datasets of a session start empty and are set from lists, in any order and any
number of times: `Entities.Built`. The categories are never set on their own.

* `Built.categories_eq`: at any time the categories are those of the objects.
* `Built.locations_eq`: the locations are indexed as they are listed.
-/

set_option autoImplicit false

namespace TaskGrammar

/-- One more object may add its category at the end. -/
theorem Category.ofObjects_append_singleton (objects : List Object) (last : Object) :
    ofObjects (objects ++ [last]) = addNew (ofObjects objects) last.category := by
  unfold ofObjects
  rw [List.map_append, List.foldl_append, List.map_singleton, List.foldl_cons, List.foldl_nil]

namespace Entities

/-- Datasets that come from the empty ones by setting them from lists. -/
inductive Built : Entities → Prop
  | empty : Built .empty
  | withGestures {entities : Entities} (gestures : List Gesture) (built : Built entities) :
      Built (entities.withGestures gestures)
  | withNames {entities : Entities} (names : List PersonName) (built : Built entities) :
      Built (entities.withNames names)
  | withLocations {entities : Entities} (locations : List Location) (built : Built entities) :
      Built (entities.withLocations locations)
  | withObjects {entities : Entities} (objects : List Object) (built : Built entities) :
      Built (entities.withObjects objects)
  | withQuestions {entities : Entities} (questions : List Question) (built : Built entities) :
      Built (entities.withQuestions questions)

/-- Only setting the objects touches the categories, and it sets both. -/
theorem Built.categories_eq {entities : Entities} (h : entities.Built) :
    entities.categories = .ofList (Category.ofObjects entities.objects.items) := by
  induction h with
  | empty => rfl
  | withObjects objects _ _ => rfl
  | withGestures _ _ ih | withNames _ _ ih | withLocations _ _ ih | withQuestions _ _ ih => exact ih

/-- The locations are set as a whole, with their index. -/
theorem Built.locations_eq {entities : Entities} (h : entities.Built) :
    entities.locations = .ofList entities.locations.items := by
  induction h with
  | empty => rfl
  | withLocations locations _ _ => rfl
  | withGestures _ _ ih | withNames _ _ ih | withObjects _ _ ih | withQuestions _ _ ih => exact ih

end Entities

end TaskGrammar
