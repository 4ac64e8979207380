import TaskGrammar.Entity.Dataset

/-!
# `TaskGrammar.Proofs.Entity.Index`: the index of a dataset against its list

A dataset has its entities twice, as a list and as an index from names to positions. Several
entities may share a name, but the index has one position for it, and whoever looks the name up
goes to that position without a second look at what stands there. So the pass that fills the
index must not move a name that it has met before. `IsIndexOf` says what it has to reach: the
index tells of each name what a search through the list would tell.

* `IsIndexOf.insertIfNew` / `IsIndexOf.extendIndex`: one more entity keeps the index in step with
  the list, and so does any number of them.
* `contains_ofList_iff`: a name is in the index exactly if some entity has it.
* `get?_ofList`: a lookup is a search through the list.
* `index_points_at_first`: no entity is lost, and each name leads to the first one that has it.
-/

set_option autoImplicit false

namespace TaskGrammar.Dataset

variable {α : Type} [Entity α]

/-- An index sends each name to where a search through some entities finds it, and has no other
names. -/
def IsIndexOf (index : Std.HashMap Text Nat) (items : List α) : Prop :=
  ∀ name, index[name]? = items.findIdx? fun item => Entity.name item == name

section

variable {index : Std.HashMap Text Nat} {items : List α}

/-- The names of an index are those of the entities, and no others. -/
theorem IsIndexOf.mem_iff (h : IsIndexOf index items) {name : Text} :
    name ∈ index ↔ ∃ item ∈ items, Entity.name item = name := by
  rw [← Std.HashMap.isSome_getElem?_iff_mem, h name]
  simp

/-- An entity at the end is entered at its position if its name is new. If it is not, the index
stays as it is, and so does a search, which stops at the entity before. -/
theorem IsIndexOf.insertIfNew (h : IsIndexOf index items) (item : α) :
    IsIndexOf (index.insertIfNew (Entity.name item) items.length) (items ++ [item]) := by
  intro name
  rw [Std.HashMap.getElem?_insertIfNew, List.findIdx?_append, ← h name, List.findIdx?_singleton]
  by_cases hname : Entity.name item = name
  · subst hname
    by_cases hmem : Entity.name item ∈ index
    · -- An entity before this one has the name, and both sides stay with it.
      obtain ⟨known, hknown⟩ := Option.isSome_iff_exists.mp
        (Std.HashMap.isSome_getElem?_iff_mem.mpr hmem)
      rw [if_neg fun hnew => hnew.2 hmem, hknown, Option.some_or]
    · simp [hmem]
  · simp [hname]

/-- Going on with an index of what came before gives an index of everything. -/
theorem IsIndexOf.extendIndex (h : IsIndexOf index items) (rest : List α) :
    IsIndexOf (Dataset.extendIndex index items.length rest) (items ++ rest) := by
  induction rest generalizing index items with
  | nil => rwa [Dataset.extendIndex, List.append_nil]
  | cons item rest ih =>
    have hrest := ih (h.insertIfNew item)
    rwa [List.length_append, List.length_singleton, List.append_assoc] at hrest

/-- The position of a name is in the list, an entity of the name is there, and none before it. -/
theorem IsIndexOf.getElem?_eq_some_iff (h : IsIndexOf index items) {name : Text}
    {position : Nat} :
    index[name]? = some position ↔
      ∃ _ : position < items.length, Entity.name items[position] = name ∧
        ∀ earlier (_ : earlier < position), Entity.name items[earlier] ≠ name := by
  rw [h name, List.findIdx?_eq_some_iff_getElem]
  simp only [beq_iff_eq, ne_eq]

end

/-- The index of a dataset is filled from nothing. -/
theorem isIndexOf_ofList (items : List α) : IsIndexOf (ofList items).index items := by
  have hempty : IsIndexOf ∅ ([] : List α) := fun name => by simp
  exact hempty.extendIndex items

/-- A dataset has a name exactly if one of its entities has it. -/
theorem contains_ofList_iff {items : List α} {name : Text} :
    (ofList items).contains name = true ↔ ∃ item ∈ items, Entity.name item = name :=
  Std.HashMap.contains_iff_mem.trans (isIndexOf_ofList items).mem_iff

/-- Looking a name up by way of the index is a search through the list. -/
theorem get?_ofList (items : List α) (name : Text) :
    (ofList items).get? name = items.find? fun item => Entity.name item == name := by
  rw [get?, isIndexOf_ofList items name, List.find?_eq_bind_findIdx?_getElem?]
  rfl

/-- A dataset keeps all entities of its list in their order. A lookup finds the first one of a
name, and fails only where no entity has the name; the index has a name exactly if the lookup
finds something. Each position in the index is one of the list, and the first with its name. -/
theorem index_points_at_first (items : List α) :
    (ofList items).items = items ∧ (ofList items).size = items.length ∧
      ∀ name,
        (ofList items).get? name = items.find? (fun item => Entity.name item == name) ∧
        ((ofList items).contains name = true ↔
          ∃ item, (ofList items).get? name = some item) ∧
        ∀ position, (ofList items).index[name]? = some position ↔
          ∃ _ : position < items.length, Entity.name items[position] = name ∧
            ∀ earlier (_ : earlier < position), Entity.name items[earlier] ≠ name := by
  refine ⟨rfl, rfl, fun name => ⟨get?_ofList items name, ?_, fun position =>
    (isIndexOf_ofList items).getElem?_eq_some_iff⟩⟩
  rw [contains_ofList_iff, get?_ofList, ← Option.isSome_iff_exists, List.find?_isSome]
  simp only [beq_iff_eq]

/-- A room, and a place in another room that has the same name. -/
def halls : List Location :=
  [.ofRoom "hall".toList, .inside "hall".toList "kitchen".toList true false]

/-- The room was given first, so the name is its name, and the index points at its position. -/
theorem index_points_at_first_hall :
    (ofList halls).size = 2 ∧
      (ofList halls).get? "hall".toList = some (.ofRoom "hall".toList) ∧
      (ofList halls).index["hall".toList]? = some 0 ∧
      (ofList halls).get? "garden".toList = none := by
  obtain ⟨-, hsize, hnames⟩ := index_points_at_first halls
  obtain ⟨hhall, -, hposition⟩ := hnames "hall".toList
  obtain ⟨hgarden, -, -⟩ := hnames "garden".toList
  refine ⟨hsize, hhall, (hposition 0).mpr ⟨by decide, rfl, ?_⟩, hgarden⟩
  exact fun earlier hearlier => absurd hearlier (Nat.not_lt_zero earlier)

end TaskGrammar.Dataset
