import Mathlib.Data.List.Induction
import TaskGrammar.Proofs.Entity.Built
import TaskGrammar.Proofs.Grammar.Table
import TaskGrammar.Speech.Conversion

/-!
# `TaskGrammar.Proofs.Speech.Lists`: what the lists of a document hold

A document lists each collection under a rule of its own. Five of the lists are the
names of a dataset as it stands; the list of categories is computed from the objects
again.

* `distinct_append_singleton` / `mem_distinct` / `nodup_distinct`: the first occurrences
  in a list of names.
* `names_ofObjects`: the names of the categories of some objects are the distinct
  category names of these objects.
* `listed_categories`: so both ways to the categories list the same names.
-/

set_option autoImplicit false

namespace TaskGrammar.Speech

/-- A name at the end is listed if it has not been before. The names are gone through from the
front, so this is the step of the inductions below. -/
theorem distinct_append_singleton (names : List Text) (name : Text) :
    distinct (names ++ [name])
      = if name ∈ distinct names then distinct names else distinct names ++ [name] := by
  unfold distinct
  rw [List.foldl_append, List.foldl_cons, List.foldl_nil]

/-- The first occurrences are occurrences of all names. So a list without repetitions lists as
much as one with them. -/
theorem mem_distinct {names : List Text} {name : Text} : name ∈ distinct names ↔ name ∈ names := by
  induction names using List.reverseRecOn with
  | nil => exact Iff.rfl
  | append_singleton names last ih =>
    rw [distinct_append_singleton, List.mem_append, List.mem_singleton]
    split
    · rename_i hlast
      rw [ih]
      constructor
      · exact .inl
      · rintro (h | rfl)
        · exact h
        · exact ih.mp hlast
    · rw [List.mem_append, List.mem_singleton, ih]

/-- No name occurs for the first time twice. -/
theorem nodup_distinct (names : List Text) : (distinct names).Nodup := by
  induction names using List.reverseRecOn with
  | nil => exact List.nodup_nil
  | append_singleton names last ih =>
    rw [distinct_append_singleton]
    split
    · exact ih
    · rename_i hlast
      exact List.nodup_append.mpr ⟨ih, by simp, fun a ha b hb e =>
        hlast (List.mem_singleton.mp hb ▸ e ▸ ha)⟩

/-- The first occurrences are what is left without later ones. -/
theorem distinct_eq_eraseDups (names : List Text) : distinct names = names.eraseDups := by
  induction names using List.reverseRecOn with
  | nil => rfl
  | append_singleton names last ih =>
    rw [distinct_append_singleton, eraseDups_append_singleton, ih]
    simp only [List.mem_eraseDups]

/-- The categories of some objects have the distinct names of the objects' categories. Categories
are told apart by their names, so a second one of a name is dropped as the name is. -/
theorem names_ofObjects (objects : List Object) :
    (Category.ofObjects objects).map Category.name
      = distinct (objects.map fun object => object.category.name) := by
  induction objects using List.reverseRecOn with
  | nil => rfl
  | append_singleton objects last ih =>
    -- Both sides ask whether the name has come up, one by names and one by categories.
    have hmem : ((Category.ofObjects objects).any fun other => other.name == last.category.name)
          = true
        ↔ last.category.name ∈ distinct (objects.map fun object => object.category.name) := by
      rw [← ih, List.any_eq_true, List.mem_map]
      simp only [beq_iff_eq]
    rw [Category.ofObjects_append_singleton, List.map_append, List.map_singleton,
      distinct_append_singleton, ← ih]
    unfold Category.addNew
    rw [← ih] at hmem
    by_cases hlast : last.category.name ∈ (Category.ofObjects objects).map Category.name
    · rw [if_pos hlast, if_pos (hmem.mpr hlast)]
    · rw [if_neg hlast, if_neg fun h => hlast (hmem.mp h), List.map_append, List.map_singleton]

/-- A document lists the categories by the names that the dataset has. -/
theorem listed_categories {entities : Entities} (h : entities.Built) :
    listed entities .categories = entities.categories.names := by
  rw [h.categories_eq]
  exact (names_ofObjects entities.objects.items).symm

end TaskGrammar.Speech
