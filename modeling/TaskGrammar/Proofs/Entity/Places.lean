import TaskGrammar.Entity.Source
import TaskGrammar.Proofs.Entity.Index
import TaskGrammar.Proofs.Expansion.Derivation
import TaskGrammar.Proofs.Speech.Lists

/-!
# `TaskGrammar.Proofs.Entity.Places`: which places the check of the places has seen

A category says where its objects are kept, by a default location and a room. The check goes
through the categories of the session, and of several categories with one name these hold the first
only. The objects hold them all. So the check speaks for an object exactly if no object before it
has another category of the same name, and where the categories of one name differ an object can
pass the check with a place that does not exist.

* `checkPlaces_eq_ok_iff`: the check accepts exactly if the places of all categories exist.
* `mem_ofObjects`: a category is that of the first object with a category of its name.
* `checkPlaces_protects`: what the check promises for the objects and for the tasks that mention
  them.
* `checkPlaces_overlooks`: two categories of one name, one place missing, and nothing is found.
-/

set_option autoImplicit false

namespace TaskGrammar

/-! ### The categories of the objects -/

/-- A search for the key of a member finds a member with this key. It need not be the same one,
and in the case of categories with a common name it is not. -/
theorem exists_find?_of_mem {α : Type} {items : List α} (key : α → Text) {item : α}
    (h : item ∈ items) :
    ∃ found ∈ items, items.find? (fun other => key other == key item) = some found ∧
      key found = key item := by
  have hsome : (items.find? fun other => key other == key item).isSome := by
    rw [List.find?_isSome]
    exact ⟨item, h, beq_self_eq_true (key item)⟩
  obtain ⟨found, hfound⟩ := Option.isSome_iff_exists.mp hsome
  refine ⟨found, List.mem_of_find?_eq_some hfound, hfound, ?_⟩
  simpa using List.find?_some hfound

namespace Category

/-- An addition changes the search for a name only where the name has not been found. So of
several categories with one name the first stays, and what later ones say of their places is
dropped. -/
theorem find?_addNew (categories : List Category) (category : Category) (name : Text) :
    (addNew categories category).find? (fun other => other.name == name)
      = (categories.find? fun other => other.name == name).or
          (if category.name == name then some category else none) := by
  unfold addNew
  split
  · rename_i hany
    obtain ⟨other, hmem, hother⟩ := List.any_eq_true.mp hany
    split
    · rename_i hname
      -- The name is that of a category before, so the search has found one.
      have hsome : (categories.find? fun other => other.name == name).isSome := by
        rw [List.find?_isSome]
        refine ⟨other, hmem, ?_⟩
        rw [beq_iff_eq] at hother hname ⊢
        exact hother.trans hname
      obtain ⟨found, hfound⟩ := Option.isSome_iff_exists.mp hsome
      rw [hfound, Option.some_or]
    · rw [Option.or_none]
  · rw [List.find?_append, List.find?_singleton]

/-- The category of a name is that of the first object with a category of this name. The objects
are gone through from the front, so the induction takes the last one away. -/
theorem find?_ofObjects (objects : List Object) (name : Text) :
    (ofObjects objects).find? (fun category => category.name == name)
      = (objects.find? fun object => object.category.name == name).map Object.category := by
  induction objects using List.reverseRecOn with
  | nil => rfl
  | append_singleton objects last ih =>
    rw [ofObjects_append_singleton, find?_addNew, ih, List.find?_append, List.find?_singleton,
      Option.map_or]
    split <;> rfl

/-- A category is that of the first object with a category of its name. No name comes twice among
the categories, which makes the category that is found under a name the only one there. -/
theorem mem_ofObjects {objects : List Object} {category : Category} :
    category ∈ ofObjects objects ↔
      (objects.find? fun object => object.category.name == category.name).map Object.category
        = some category := by
  rw [← find?_ofObjects]
  constructor
  · intro hmem
    obtain ⟨found, hfound, hfind, hname⟩ := exists_find?_of_mem name hmem
    -- Two categories of one name would be two names in the list of names.
    have hnodup : ((ofObjects objects).map name).Nodup := by
      rw [Speech.names_ofObjects]
      exact Speech.nodup_distinct _
    rw [hfind, List.inj_on_of_nodup_map hnodup hfound hmem hname]
  · exact List.mem_of_find?_eq_some

end Category

/-! ### The check -/

namespace Entities

variable {entities : Entities}

/-- A place is left open, or there is a location of this name. -/
def HasPlace (entities : Entities) (place : Text) : Prop :=
  place = [] ∨ ∃ location ∈ entities.locations.items, location.name = place

/-- Both places of a category exist, as far as it names them. -/
def HasPlacesOf (entities : Entities) (category : Category) : Prop :=
  entities.HasPlace category.defaultLocation ∧ entities.HasPlace category.room

instance (place : Text) : Decidable (entities.HasPlace place) :=
  inferInstanceAs (Decidable (place = [] ∨ ∃ location ∈ entities.locations.items,
    location.name = place))

instance (category : Category) : Decidable (entities.HasPlacesOf category) :=
  inferInstanceAs (Decidable (_ ∧ _))

/-- The check asks a dataset whether it has a name; the places are meant to be among its entities.
For entities that were built the two are the same. -/
theorem hasPlace_iff (hbuilt : entities.Built) {place : Text} :
    entities.HasPlace place ↔ place = [] ∨ entities.locations.contains place = true := by
  rw [hbuilt.locations_eq, Dataset.contains_ofList_iff]
  rfl

/-- No place of a category is missing exactly if both exist. A place that is left open is never
missing. -/
theorem placesMissingFrom_eq_nil_iff (hbuilt : entities.Built) {category : Category} :
    placesMissingFrom entities.locations category = [] ↔ entities.HasPlacesOf category := by
  -- A place that is kept by the filter is one that the entities do not have.
  have hkept : ∀ place : Text,
      (¬ (!place.isEmpty && !entities.locations.contains place) = true) ↔
        entities.HasPlace place := by
    intro place
    rw [hasPlace_iff hbuilt]
    cases place with
    | nil => simp
    | cons c rest => simp
  unfold placesMissingFrom HasPlacesOf
  rw [List.map_eq_nil_iff, List.filter_eq_nil_iff, List.forall_mem_cons, List.forall_mem_singleton,
    hkept, hkept]

/-- The check accepts exactly if the places of all categories exist. The categories are those that
the entities keep, not those of a file. -/
theorem checkPlaces_eq_ok_iff (hbuilt : entities.Built) :
    entities.checkPlaces = .ok () ↔
      ∀ category ∈ entities.categories.items, entities.HasPlacesOf category := by
  have hmissing : entities.checkPlaces = .ok () ↔
      entities.categories.items.flatMap (placesMissingFrom entities.locations) = [] := by
    unfold checkPlaces
    split <;> simp_all
  rw [hmissing, List.flatMap_eq_nil_iff]
  simp only [placesMissingFrom_eq_nil_iff hbuilt]

end Entities

/-! ### Tasks -/

/-- What comes before a default location in a remark. -/
def defaultLocationHeading : Text :=
  "default location: ".toList

/-- The remarks on the default location of a category: the one of the category itself, and the one
of its objects. -/
def Category.locationRemarks (category : Category) : List Text :=
  [defaultLocationHeading ++ category.defaultLocation,
    defaultLocationHeading ++ category.defaultLocation ++ " (".toList ++ category.room ++
      ")".toList]

/-- Other remarks have other headings, which differ in one of the first two letters. So whatever
comes behind such a heading, the remark is not taken for one on a default location. -/
theorem not_startsWith_heading {heading remark : Text}
    (h : heading.take 2 ≠ ['d', 'e']) (hlength : 2 ≤ heading.length) :
    ¬ defaultLocationHeading <+: heading ++ remark := by
  rintro ⟨rest, hrest⟩
  have hletters : (heading ++ remark).take 2 = ['d', 'e'] := by
    rw [← hrest]
    rfl
  rw [List.take_append_of_le_length hlength] at hletters
  exact h hletters

/-- A category of the session is that of an object. -/
theorem Entities.Built.exists_object {entities : Entities} (hbuilt : entities.Built)
    {category : Category} (hmem : category ∈ entities.categories.items) :
    ∃ object ∈ entities.objects.items, object.category = category := by
  rw [hbuilt.categories_eq] at hmem
  obtain ⟨object, hfind, hcategory⟩ := Option.map_eq_some_iff.mp (Category.mem_ofObjects.mp hmem)
  exact ⟨object, List.mem_of_find?_eq_some hfind, hcategory⟩

/-- Only categories and objects have remarks on a default location. Each kind of entity has
headings of its own, so the cases are gone through and all others are told apart by their
headings. -/
theorem Entities.Offers.mem_locationRemarks {entities : Entities} (hbuilt : entities.Built)
    {kind : Wildcard.Kind} {token : Token} (h : entities.Offers kind token) {remark : Text}
    (hmem : remark ∈ token.metadata) (hstarts : defaultLocationHeading <+: remark) :
    ∃ object ∈ entities.objects.items, remark ∈ object.category.locationRemarks := by
  cases kind with
  | category =>
    obtain ⟨category, hcategory, rfl⟩ := h
    obtain ⟨object, hobject, rfl⟩ := hbuilt.exists_object hcategory
    rcases List.mem_cons.mp hmem with rfl | hroom
    · exact ⟨object, hobject, List.mem_cons_self⟩
    · rw [List.mem_singleton.mp hroom] at hstarts
      exact absurd hstarts (not_startsWith_heading (by decide) (by decide))
  | object filter =>
    obtain ⟨object, hobject, -, rfl⟩ := h
    rcases List.mem_cons.mp hmem with rfl | hlocation
    · exact absurd hstarts (not_startsWith_heading (by decide) (by decide))
    · exact ⟨object, hobject, List.mem_cons_of_mem _ hlocation⟩
  | gesture | question =>
    obtain ⟨entity, -, rfl⟩ := h
    rw [List.mem_singleton.mp hmem] at hstarts
    exact absurd hstarts (not_startsWith_heading (by decide) (by decide))
  | name filter =>
    obtain ⟨person, -, -, rfl⟩ := h
    rw [List.mem_singleton.mp hmem] at hstarts
    exact absurd hstarts (not_startsWith_heading (by decide) (by decide))
  | location filter =>
    obtain ⟨location, -, -, rfl⟩ := h
    unfold Entity.token at hmem
    simp only [Entity.metadata] at hmem
    split at hmem
    · rw [List.mem_singleton.mp hmem] at hstarts
      exact absurd hstarts (by decide)
    · rcases List.mem_cons.mp hmem with rfl | hroom
      · exact absurd hstarts (not_startsWith_heading (by decide) (by decide))
      · rw [List.mem_singleton.mp hroom] at hstarts
        exact absurd hstarts (not_startsWith_heading (by decide) (by decide))
  | void | other key => cases h

/-- A remark on a default location, in a task, is the grammar's own or that of a category of an
object. A token of a task is a literal, without remarks, or comes from a wildcard, which may add a
remark to those of an entity. -/
theorem Expansion.mem_locationRemarks_of_task {σ : Type} [RandomSource σ] {expansion : Expansion}
    (hbuilt : expansion.entities.Built) {source : σ} {task : Task}
    (htask : ((expansion.task : Draw σ Task).outcome source).1 = .ok task) {token : Token}
    (htoken : token ∈ task.tokens) {remark : Text} (hmem : remark ∈ token.metadata)
    (hstarts : defaultLocationHeading <+: remark) :
    (∃ wildcard ∈ expansion.grammar.wildcards, wildcard.metadata = some remark) ∨
      ∃ object ∈ expansion.entities.objects.items, remark ∈ object.category.locationRemarks := by
  have hyields := (task_satisfies (σ := σ) expansion Random.respects_any).result_of_ok trivial htask
  rcases hyields.literal_or_adds (by simp) htoken with
    ⟨text, rfl⟩ | ⟨wildcard, hw, added, hadds, hin⟩
  · cases hmem
  · cases hadds with
    | remark hvoid =>
      cases hmetadata : wildcard.metadata with
      | none =>
        rw [hmetadata] at hin
        cases hin
      | some own =>
        rw [hmetadata] at hin
        obtain rfl := List.mem_singleton.mp hin
        obtain rfl := List.mem_singleton.mp hmem
        exact .inl ⟨wildcard, hw, hmetadata⟩
    | entity offered =>
      obtain rfl := List.mem_singleton.mp hin
      cases hmetadata : wildcard.metadata with
      | none =>
        rw [hmetadata] at hmem
        exact .inr (offered.mem_locationRemarks hbuilt hmem hstarts)
      | some own =>
        rw [hmetadata] at hmem
        rcases List.mem_append.mp hmem with hentity | hown
        · exact .inr (offered.mem_locationRemarks hbuilt hentity hstarts)
        · obtain rfl := List.mem_singleton.mp hown
          exact .inl ⟨wildcard, hw, hmetadata⟩

/-! ### What the check promises -/

/-- The check asks for the places of the first object with each category name. It says nothing of
a later object whose category has the same name and other places. -/
theorem Entities.checkPlaces_eq_ok_iff_objects {entities : Entities} (hbuilt : entities.Built) :
    entities.checkPlaces = .ok () ↔
      ∀ name object,
        entities.objects.items.find? (fun object => object.category.name == name) = some object →
          entities.HasPlacesOf object.category := by
  rw [checkPlaces_eq_ok_iff hbuilt, hbuilt.categories_eq]
  constructor
  · intro hall name object hfind
    have hname : object.category.name = name := by simpa using List.find?_some hfind
    refine hall _ (Category.mem_ofObjects.mpr ?_)
    rw [hname, hfind, Option.map_some]
  · intro hall category hmem
    obtain ⟨object, hfind, rfl⟩ := Option.map_eq_some_iff.mp (Category.mem_ofObjects.mp hmem)
    exact hall _ object hfind

/-- The check of the places, for datasets that are set from any lists.

It accepts exactly if the places of the first object with each category name exist.

If the objects with one category name also have one category, then no object of an accepted session
names a place that does not exist. A remark on a default location, in any task of any grammar, is
one that the grammar itself makes or one on such a place. -/
theorem Entities.checkPlaces_protects {entities : Entities} (hbuilt : entities.Built) :
    (entities.checkPlaces = .ok () ↔
      ∀ name object,
        entities.objects.items.find? (fun object => object.category.name == name) = some object →
          entities.HasPlacesOf object.category) ∧
    (entities.checkPlaces = .ok () →
      (∀ first ∈ entities.objects.items, ∀ second ∈ entities.objects.items,
        first.category.name = second.category.name → first.category = second.category) →
      (∀ object ∈ entities.objects.items, entities.HasPlacesOf object.category) ∧
      ∀ (σ : Type) [RandomSource σ] (grammar : Grammar) (limit : Nat) (source : σ) (task : Task),
        (((Expansion.mk grammar entities limit).task : Draw σ Task).outcome source).1 = .ok task →
          ∀ token ∈ task.tokens, ∀ remark ∈ token.metadata, defaultLocationHeading <+: remark →
            (∃ wildcard ∈ grammar.wildcards, wildcard.metadata = some remark) ∨
            ∃ object ∈ entities.objects.items, entities.HasPlacesOf object.category ∧
              remark ∈ object.category.locationRemarks) := by
  refine ⟨checkPlaces_eq_ok_iff_objects hbuilt, fun hok hsame => ?_⟩
  have hplaces : ∀ object ∈ entities.objects.items, entities.HasPlacesOf object.category := by
    intro object hobject
    -- The check has looked at the first object of this category name, and its category is the
    -- same.
    obtain ⟨first, hfirst, hfind, hname⟩ :=
      exists_find?_of_mem (fun object => object.category.name) hobject
    rw [← hsame first hfirst object hobject hname]
    exact (checkPlaces_eq_ok_iff_objects hbuilt).mp hok _ first hfind
  refine ⟨hplaces, fun σ _ grammar limit source task htask token htoken remark hmem hstarts => ?_⟩
  rcases Expansion.mem_locationRemarks_of_task hbuilt htask htoken hmem hstarts with
    hgrammar | ⟨object, hobject, hremark⟩
  · exact .inl hgrammar
  · exact .inr ⟨object, hobject, hplaces object hobject, hremark⟩

/-- Drinks that are kept in a place in the kitchen. -/
def Category.drinksAt (place : Text) : Category :=
  { name := "drinks".toList, defaultLocation := place, room := "kitchen".toList }

/-- A kitchen with a bar. -/
def kitchenette : List Location :=
  [.ofRoom "kitchen".toList, .inside "bar".toList "kitchen".toList false false]

/-- A kitchen in which everything has its place. -/
def Entities.tidy : Entities :=
  (Entities.empty.withObjects [⟨"coke".toList, .known, .drinksAt "bar".toList⟩,
    ⟨"apple".toList, .alike, ⟨"fruits".toList, [], "kitchen".toList⟩⟩,
    ⟨"juice".toList, .special, .drinksAt "bar".toList⟩]).withLocations kitchenette

/-- The tidy kitchen passes the check, and each of its objects has its place. -/
theorem Entities.checkPlaces_protects_tidy :
    tidy.Built ∧ tidy.checkPlaces = .ok () ∧
      ∀ object ∈ tidy.objects.items, tidy.HasPlacesOf object.category := by
  have hbuilt : tidy.Built := .withLocations _ (.withObjects _ .empty)
  have hok : tidy.checkPlaces = .ok () := (checkPlaces_eq_ok_iff hbuilt).mpr (by decide +kernel)
  have hsame : ∀ first ∈ tidy.objects.items, ∀ second ∈ tidy.objects.items,
      first.category.name = second.category.name → first.category = second.category := by
    decide +kernel
  exact ⟨hbuilt, hok, ((checkPlaces_protects hbuilt).2 hok hsame).1⟩

/-- Two categories of one name, in a file of objects and a file of rooms. The check accepts them,
and one of the objects is kept in a cellar that does not exist. -/
theorem Entities.checkPlaces_overlooks :
    ∃ objects locations,
      parseObjects ("<categories>" ++
        "<category name=\"drinks\" defaultLocation=\"bar\" room=\"kitchen\">" ++
        "<object name=\"coke\"/></category>" ++
        "<category name=\"drinks\" defaultLocation=\"cellar\" room=\"kitchen\">" ++
        "<object name=\"juice\"/></category></categories>").toList = .ok objects ∧
      parseLocations ("<rooms><room name=\"kitchen\"><location name=\"bar\"/></room></rooms>"
        ).toList = .ok locations ∧
      ((Entities.empty.withObjects objects).withLocations locations).checkPlaces = .ok () ∧
      ∃ object ∈ objects,
        ¬ ((Entities.empty.withObjects objects).withLocations locations).HasPlacesOf
          object.category := by
  refine ⟨[⟨"coke".toList, .known, .drinksAt "bar".toList⟩,
    ⟨"juice".toList, .known, .drinksAt "cellar".toList⟩], kitchenette, by decide +kernel,
    by decide +kernel, ?_, by decide +kernel⟩
  exact (checkPlaces_eq_ok_iff (.withLocations _ (.withObjects _ .empty))).mpr (by decide +kernel)

end TaskGrammar
