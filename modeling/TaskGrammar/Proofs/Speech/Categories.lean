import TaskGrammar.Proofs.Entity.Places
import TaskGrammar.Proofs.Expansion.Completeness
import TaskGrammar.Proofs.Speech.Derivation
import TaskGrammar.Proofs.Speech.RuleIds
import TaskGrammar.Proofs.Speech.Wildcards

/-!
# `TaskGrammar.Proofs.Speech.Categories`: the categories and the objects that they are from

The categories of a session are kept as a dataset of their own, made when the objects are set. The
conversion does not look at it: it goes through the objects once more and collects the names of
their categories. So the names that a wildcard draws and the names that a document lists come from
two passes, one over categories and one over names, and nothing but the way in which a session is
set up keeps the dataset from going stale.

What a document lists is read off the events that it is written with, by someone who knows nothing
of its rules: `Document.itemsUnder` has what stands in the items in the rule elements of an id.

* `itemsUnder_eq`: these are the phrases of the choices under this id.
* `itemsUnder_categories`: the document of a grammar lists the names of the categories.
* `canDraw_iff_mem_names`: a wildcard for a category can be made to draw each of these names, and
  nothing else.
* `categories_in_step`: dataset, objects, document and draws agree, however the session was set up.
-/

set_option autoImplicit false

namespace TaskGrammar

open TaskGrammar.Markup

/-! ### What stands in elements -/

section Enclosed

variable {opens : Event → Bool} {last : Event}

/-- What stands behind each opening event, up to the closing one. -/
def Markup.enclosed (opens : Event → Bool) (last : Event) : List Event → List (List Event)
  | [] => []
  | event :: rest =>
    if opens event then
      rest.takeWhile (fun other => other ≠ last) :: enclosed opens last rest
    else
      enclosed opens last rest

/-- Nothing stands behind events that do not open. -/
theorem enclosed_append {before : List Event} (h : ∀ event ∈ before, opens event = false)
    (rest : List Event) : enclosed opens last (before ++ rest) = enclosed opens last rest := by
  induction before with
  | nil => rfl
  | cons event before ih =>
    rw [List.forall_mem_cons] at h
    rw [List.cons_append, enclosed, h.1, if_neg Bool.false_ne_true, ih h.2]

/-- Where nothing opens, nothing is enclosed. -/
theorem enclosed_eq_nil {events : List Event} (h : ∀ event ∈ events, opens event = false) :
    enclosed opens last events = [] := by
  rw [← List.append_nil events, enclosed_append h]
  rfl

/-- An element has its content behind the opening event, if no other is opened or closed there.
The search for the closing event would stop too early otherwise, as it does not count what is
open. -/
theorem enclosed_element {first : Event} {content : List Event} (hfirst : opens first = true)
    (hcontent : ∀ event ∈ content, opens event = false ∧ event ≠ last)
    (hlast : opens last = false) (rest : List Event) :
    enclosed opens last ([first] ++ content ++ [last] ++ rest)
      = content :: enclosed opens last rest := by
  -- The search goes on inside the element, and finds nothing there.
  have hlater : enclosed opens last (content ++ [last] ++ rest) = enclosed opens last rest := by
    refine enclosed_append (fun event hevent => ?_) rest
    rcases List.mem_append.mp hevent with hevent | hevent
    · exact (hcontent event hevent).1
    · rw [List.mem_singleton.mp hevent, hlast]
  have htake : (content ++ ([last] ++ rest)).takeWhile (fun other => other ≠ last) = content := by
    rw [List.takeWhile_append_of_pos (fun event hevent => by simpa using (hcontent event hevent).2)]
    simp
  rw [List.append_assoc, List.append_assoc, List.singleton_append, enclosed, hfirst, if_pos rfl,
    htake, ← List.append_assoc, hlater]

/-- Where each piece adds something whatever follows it, pieces in a row add this in a row. Both
the rules of a document and the items of a choice are read in this way. -/
theorem enclosed_flatMap {α : Type} {piece : α → List Event} {adds : α → List (List Event)}
    (hpiece : ∀ a rest, enclosed opens last (piece a ++ rest) = adds a ++ enclosed opens last rest)
    (items : List α) (rest : List Event) :
    enclosed opens last (items.flatMap piece ++ rest)
      = items.flatMap adds ++ enclosed opens last rest := by
  induction items with
  | nil => rfl
  | cons item others ih =>
    rw [List.flatMap_cons, List.flatMap_cons, List.append_assoc, List.append_assoc, hpiece, ih]

end Enclosed

/-- The start tag of a rule of this id. -/
def Markup.Event.opensRule (id : Text) : Event → Bool
  | .startTag name attributes => name = "rule".toList ∧ attributes.lookup "id".toList = some id
  | _ => false

/-- The start tag of an item. -/
def Markup.Event.opensItem : Event → Bool
  | .startTag name _ => name = "item".toList
  | _ => false

namespace Speech

/-- What stands in the items of a document that are in its rules of an id. -/
def Document.itemsUnder (document : Document) (id : Text) : List (List Event) :=
  (enclosed (Event.opensRule id) (.endTag "rule".toList) document.events).flatMap
    (enclosed Event.opensItem (.endTag "item".toList))

/-- What is written for the phrases of a rule with a choice, phrase by phrase. -/
def DocumentRule.items (rule : DocumentRule) : List (List Event) :=
  match rule.body with
  | .oneOf phrases => phrases.map fun phrase => phrase.map Part.event
  | _ => []

/-- The events between the tags of a rule, if it has two. -/
def DocumentRule.content? (rule : DocumentRule) : Option (List Event) :=
  match rule.body with
  | .empty => none
  | .phrase phrase => some (phrase.map Part.event)
  | .oneOf phrases => some (choiceEvents phrases)

/-- The start tag of anything else opens no rule, whatever its attributes are. -/
theorem opensRule_startTag {name : Text} (h : name ≠ "rule".toList)
    (attributes : List (Text × Text)) (id : Text) :
    (Event.startTag name attributes).opensRule id = false :=
  decide_eq_false fun hrule => h hrule.1

/-- An event that opens a rule of an id has this id. -/
theorem ruleId?_of_opensRule {id : Text} {event : Event} (h : event.opensRule id = true) :
    event.ruleId? = some id := by
  cases event with
  | startTag name attributes =>
    obtain ⟨hname, hid⟩ := of_decide_eq_true h
    rw [Event.ruleId?, if_pos hname, hid]
  | declaration | emptyTag _ _ | endTag _ | text _ => cases h

/-- A part of a phrase neither opens nor closes a rule. -/
theorem opensRule_event (id : Text) (part : Part) :
    part.event.opensRule id = false ∧ part.event ≠ .endTag "rule".toList := by
  cases part <;> exact ⟨rfl, nofun⟩

/-- Nor does it open or close an item. -/
theorem opensItem_event (part : Part) :
    part.event.opensItem = false ∧ part.event ≠ .endTag "item".toList := by
  cases part <;> exact ⟨rfl, nofun⟩

/-- In a choice no rule is opened or closed, so a rule with a choice is read as a whole. -/
theorem opensRule_choiceEvents (id : Text) (phrases : List Phrase) :
    ∀ event ∈ choiceEvents phrases,
      event.opensRule id = false ∧ event ≠ .endTag "rule".toList := by
  cases phrases with
  | nil => exact List.forall_mem_singleton.mpr ⟨rfl, nofun⟩
  | cons first others =>
    refine forall_mem_element ⟨opensRule_startTag (by decide) _ _, nofun⟩ (fun event hevent => ?_)
      ⟨rfl, by decide⟩
    obtain ⟨phrase, -, hitem⟩ := List.mem_flatMap.mp hevent
    have hinside : ∀ event ∈ itemEvents phrase,
        event.opensRule id = false ∧ event ≠ .endTag "rule".toList :=
      forall_mem_element ⟨opensRule_startTag (by decide) _ _, nofun⟩
        (List.forall_mem_map.mpr fun part _ => opensRule_event id part) ⟨rfl, by decide⟩
    exact hinside event hitem

/-- The items of a choice hold its phrases, in order and as they were written. Nothing stands
between two items. -/
theorem enclosed_choiceEvents (phrases : List Phrase) :
    enclosed Event.opensItem (.endTag "item".toList) (choiceEvents phrases)
      = phrases.map fun phrase => phrase.map Part.event := by
  have hitem : ∀ (phrase : Phrase) (rest : List Event),
      enclosed Event.opensItem (.endTag "item".toList) (itemEvents phrase ++ rest)
        = [phrase.map Part.event] ++ enclosed Event.opensItem (.endTag "item".toList) rest :=
    fun phrase rest => enclosed_element rfl
      (List.forall_mem_map.mpr fun part _ => opensItem_event part) rfl rest
  cases phrases with
  | nil => rfl
  | cons first others =>
    rw [choiceEvents, List.append_assoc, enclosed_append (by decide), enclosed_flatMap hitem,
      enclosed_eq_nil (by decide), List.append_nil, List.map_eq_flatMap]
    nofun

/-- The events of a rule are read as its content, if the rule has the id. Otherwise nothing of it
is read: none of its events opens a rule of the id. -/
theorem enclosed_rule_events (id : Text) (rule : DocumentRule) (rest : List Event) :
    enclosed (Event.opensRule id) (.endTag "rule".toList) (rule.events ++ rest)
      = (if rule.id = id then rule.content?.toList else [])
        ++ enclosed (Event.opensRule id) (.endTag "rule".toList) rest := by
  by_cases hid : rule.id = id
  · have hopens : (Event.startTag "rule".toList [("id".toList, rule.id)]).opensRule id = true := by
      simp [Event.opensRule, hid]
    rw [if_pos hid, DocumentRule.events, DocumentRule.content?]
    cases rule.body with
    | empty => exact enclosed_append (List.forall_mem_singleton.mpr rfl) rest
    | phrase phrase =>
      exact enclosed_element hopens
        (List.forall_mem_map.mpr fun part _ => opensRule_event id part) rfl rest
    | oneOf phrases =>
      exact enclosed_element hopens (opensRule_choiceEvents id phrases) rfl rest
  · -- A tag that opened a rule of the id would be the rule's own, which has another.
    rw [if_neg hid, List.nil_append]
    refine enclosed_append (fun event hevent => eq_false_of_ne_true fun hopens => hid ?_) rest
    have hmem : id ∈ rule.events.filterMap Event.ruleId? :=
      List.mem_filterMap.mpr ⟨event, hevent, ruleId?_of_opensRule hopens⟩
    rw [filterMap_ruleId?_rule] at hmem
    exact (List.mem_singleton.mp hmem).symm

/-- The items under an id are the phrases of the choices under this id. A rule with a single
phrase has no items, and neither does an empty one. -/
theorem itemsUnder_eq (document : Document) (id : Text) :
    document.itemsUnder id
      = document.rules.flatMap fun rule => if rule.id = id then rule.items else [] := by
  have hitems : ∀ rule : DocumentRule, rule.content?.toList.flatMap
      (enclosed Event.opensItem (.endTag "item".toList)) = rule.items := by
    intro rule
    rw [DocumentRule.content?, DocumentRule.items]
    cases rule.body with
    | empty => rfl
    | phrase phrase =>
      exact (List.flatMap_singleton _ _).trans
        (enclosed_eq_nil (List.forall_mem_map.mpr fun part _ => (opensItem_event part).1))
    | oneOf phrases => exact (List.flatMap_singleton _ _).trans (enclosed_choiceEvents phrases)
  -- Neither the declaration nor the tags of the root open a rule.
  rw [Document.itemsUnder, Document.events, List.append_assoc, enclosed_append,
    enclosed_flatMap (enclosed_rule_events id), enclosed_eq_nil, List.append_nil,
    List.flatMap_assoc]
  · congr 1
    funext rule
    rw [apply_ite (List.flatMap _), hitems]
    rfl
  · exact List.forall_mem_singleton.mpr rfl
  · exact List.forall_mem_cons.mpr
      ⟨rfl, List.forall_mem_singleton.mpr (opensRule_startTag (by decide) _ id)⟩

/-! ### The categories in a document -/

/-- Under the id of the categories a document has the names of the dataset: no rule of the grammar
may have the id, and a placeholder of this id has no items. -/
theorem itemsUnder_categories {grammar : Grammar} {entities : Entities} {document : Document}
    (hentities : entities.Built) (hdocument : Document.ofGrammar grammar entities = .ok document) :
    document.itemsUnder "__categories__".toList
      = entities.categories.names.map fun name => [.text name] := by
  obtain ⟨root, hroot, hids, rfl⟩ := ofGrammar_eq_ok_iff.mp hdocument
  -- The id is reserved, so the conversion would have failed for a rule that has it.
  have htable : ((tableRules grammar root).map (ruleOf grammar)).flatMap
      (fun rule => if rule.id = "__categories__".toList then rule.items else []) = [] := by
    refine List.flatMap_eq_nil_iff.mpr (List.forall_mem_map.mpr fun rule hrule => ?_)
    refine if_neg fun hid => ?_
    have hfree := hids rule ((mem_tableRules hroot).mp hrule)
    rw [show Rule.exportId rule.id = "__categories__".toList from hid] at hfree
    revert hfree
    decide
  have hlists : (listOrder.map (listRule entities)).flatMap
      (fun rule => if rule.id = "__categories__".toList then rule.items else [])
        = (listRule entities .categories).items := List.append_nil _
  -- A wildcard of the key `categories` has its placeholder under this id, which is empty.
  have hplaceholders : ∀ ids : List Text, (ids.map fun id => DocumentRule.mk id .empty).flatMap
      (fun rule => if rule.id = "__categories__".toList then rule.items else []) = [] := by
    intro ids
    refine List.flatMap_eq_nil_iff.mpr (List.forall_mem_map.mpr fun id _ => ?_)
    exact ite_self _
  rw [itemsUnder_eq, documentOf, List.flatMap_append, List.flatMap_append, htable, hlists,
    List.nil_append, hplaceholders, List.append_nil, ← listed_categories hentities]
  exact List.map_map

end Speech

/-! ### What a wildcard for a category draws -/

/-- A wildcard can be made to draw a name: some words of a random source make it add one token with
this text. -/
def Wildcard.CanDraw (entities : Entities) (wildcard : Wildcard) (name : Text) : Prop :=
  ∃ (words : List UInt64) (token : Token),
    ((Expansion.expandWildcard entities wildcard : Draw Script (List Token)).outcome
      (Script.ofWords words)).1 = .ok [token] ∧ token.text = name

/-- Whatever a random source gives, a wildcard for a category adds the name of one. It may carry a
remark, which leaves the text alone. -/
theorem mem_names_of_expandWildcard {σ : Type} [RandomSource σ] {entities : Entities}
    {wildcard : Wildcard} (hkind : wildcard.kind = .category) {source : σ} {tokens : List Token}
    (hok : ((Expansion.expandWildcard entities wildcard : Draw σ (List Token)).outcome source).1
      = .ok tokens) :
    ∃ token, tokens = [token] ∧ token.text ∈ entities.categories.names := by
  have hcollection : wildcard.kind.collection? = some .categories := by
    rw [hkind]
    rfl
  obtain ⟨token, hmem, rfl⟩ := Wildcard.exists_mem_members_of_ok hcollection hok
  obtain ⟨category, hcategory, rfl⟩ := List.mem_map.mp hmem
  refine ⟨_, rfl, ?_⟩
  rw [Speech.text_annotate]
  exact List.mem_map_of_mem hcategory

namespace Entities

variable {entities : Entities}

/-- No two categories have the same name, since they come from the names that the objects have for
theirs, each taken once. -/
theorem Built.nodup_names_categories (h : entities.Built) : entities.categories.names.Nodup := by
  rw [← Speech.listed_categories h]
  exact Speech.nodup_distinct _

/-- The names of the categories are those that the objects have for theirs. -/
theorem Built.mem_names_categories (h : entities.Built) {name : Text} :
    name ∈ entities.categories.names ↔ ∃ object ∈ entities.objects.items,
      object.category.name = name := by
  rw [← Speech.listed_categories h, Speech.listed, Speech.mem_distinct, List.mem_map]

/-- There are no more categories than objects. -/
theorem Built.length_categories_le (h : entities.Built) :
    entities.categories.items.length ≤ entities.objects.items.length := by
  have hsub : entities.categories.names
      ⊆ entities.objects.items.map fun object => object.category.name := fun name hname =>
    List.mem_map.mpr (h.mem_names_categories.mp hname)
  have hlength := (List.subperm_of_subset h.nodup_names_categories hsub).length_le
  rwa [Dataset.names, List.length_map, List.length_map] at hlength

/-- Each name of a category can be drawn, and nothing else. The objects are as many as words of 64
bits can count. -/
theorem Built.canDraw_iff_mem_names (h : entities.Built)
    (hlength : entities.objects.items.length < UInt64.size) {wildcard : Wildcard}
    (hkind : wildcard.kind = .category) {name : Text} :
    wildcard.CanDraw entities name ↔ name ∈ entities.categories.names := by
  constructor
  · rintro ⟨words, token, hok, rfl⟩
    obtain ⟨other, hsame, hmem⟩ := mem_names_of_expandWildcard hkind hok
    rwa [List.singleton_inj.mp hsame]
  · intro hname
    -- There are no more categories than objects, so a word can count them.
    obtain ⟨category, hcategory, rfl⟩ := List.mem_map.mp hname
    have hcount : (entities.candidates wildcard.kind).length < UInt64.size := by
      rw [hkind, candidates, List.length_map]
      exact Nat.lt_of_le_of_lt h.length_categories_le hlength
    have hoffers : entities.Offers wildcard.kind (Entity.token category) := by
      rw [hkind]
      exact ⟨category, hcategory, rfl⟩
    obtain ⟨words, hwords⟩ := Expansion.exists_gives_expandWildcard hcount (.entity hoffers)
    exact ⟨words, _, hwords.outcome_ofWords, Speech.text_annotate _ _⟩

/-- However the datasets of a session were set, categories and objects are in step.

The categories have distinct names. Each object has the name of its category among them, where the
lookup finds it, and each category is that of an object. In what is written for any grammar the
items under the id of the categories are their names in order, although they are collected from the
objects. So a wildcard for a category adds a name that the document lists, and it can be made to add
any of these. -/
theorem Built.categories_in_step (h : entities.Built) :
    entities.categories.names.Nodup ∧
    (∀ object ∈ entities.objects.items, object.category.name ∈ entities.categories.names ∧
      entities.categories.contains object.category.name = true) ∧
    (∀ category ∈ entities.categories.items,
      ∃ object ∈ entities.objects.items, object.category = category) ∧
    ∀ (grammar : Grammar) (document : Speech.Document),
      Speech.Document.ofGrammar grammar entities = .ok document →
      Speech.convert grammar entities = .ok document.render ∧
        document.itemsUnder "__categories__".toList
          = entities.categories.names.map (fun name => [.text name]) ∧
        ∀ wildcard : Wildcard, wildcard.kind = .category →
          (∀ {σ : Type} [RandomSource σ] (source : σ) (tokens : List Token),
            ((Expansion.expandWildcard entities wildcard : Draw σ (List Token)).outcome source).1
              = .ok tokens →
            ∃ token, tokens = [token] ∧
              [.text token.text] ∈ document.itemsUnder "__categories__".toList) ∧
          (entities.objects.items.length < UInt64.size → ∀ name, wildcard.CanDraw entities name ↔
            [.text name] ∈ document.itemsUnder "__categories__".toList) := by
  have hnames : ∀ object ∈ entities.objects.items,
      object.category.name ∈ entities.categories.names := fun object hobject =>
    h.mem_names_categories.mpr ⟨object, hobject, rfl⟩
  refine ⟨h.nodup_names_categories, fun object hobject => ⟨hnames object hobject, ?_⟩,
    fun category hcategory => h.exists_object hcategory, fun grammar document hdocument => ?_⟩
  · rw [h.categories_eq, Dataset.contains_ofList_iff]
    have hname := hnames object hobject
    rw [h.categories_eq] at hname
    exact List.mem_map.mp hname
  · have hitems := Speech.itemsUnder_categories h hdocument
    -- A text stands for itself in an item, so the names are read off the items.
    have hlisted : ∀ name, [.text name] ∈ document.itemsUnder "__categories__".toList ↔
        name ∈ entities.categories.names := by
      intro name
      rw [hitems, List.mem_map]
      simp
    simp only [hlisted]
    exact ⟨Speech.convert_eq_ok_iff.mpr ⟨document, hdocument, rfl⟩, hitems,
      fun wildcard hkind => ⟨fun source tokens hok => mem_names_of_expandWildcard hkind hok,
        fun hlength name => h.canDraw_iff_mem_names hlength hkind⟩⟩

/-- Objects that have taken the place of an apple, among them two of one category. -/
def pantry : Entities :=
  let drinks : Category := ⟨"drinks".toList, "fridge".toList, "kitchen".toList⟩
  ((empty.withObjects [⟨"apple".toList, .known, ⟨"fruits".toList, [], []⟩⟩]).withNames
    [⟨"Eve".toList, .female⟩]).withObjects
      [⟨"crisps".toList, .known, ⟨"snacks".toList, [], []⟩⟩, ⟨"coke".toList, .known, drinks⟩,
        ⟨"juice".toList, .alike, drinks⟩]

/-- A grammar with a wildcard for a category, and one whose placeholder has the id of their list. -/
def servings : Grammar :=
  .ofRules [] .unknown [⟨Grammar.rootId, ["serve {category}".toList, "show {categories}".toList]⟩]

/-- The document lists the two categories that there are. The one that two objects have can be
drawn, and the one of the apple cannot. -/
theorem Built.categories_in_step_pantry :
    pantry.Built ∧ ∃ document, Speech.Document.ofGrammar servings pantry = .ok document ∧
      document.itemsUnder "__categories__".toList
        = [[.text "snacks".toList], [.text "drinks".toList]] ∧
      Wildcard.CanDraw pantry ⟨"category".toList, [], true⟩ "drinks".toList ∧
      ¬ Wildcard.CanDraw pantry ⟨"category".toList, [], true⟩ "fruits".toList := by
  have hbuilt : pantry.Built := .withObjects _ (.withNames _ (.withObjects _ .empty))
  obtain ⟨document, hdocument⟩ : ∃ document,
      Speech.Document.ofGrammar servings pantry = .ok document := ⟨_, rfl⟩
  obtain ⟨-, hitems, hdraws⟩ := hbuilt.categories_in_step.2.2.2 servings document hdocument
  obtain ⟨-, hcan⟩ := hdraws ⟨"category".toList, [], true⟩ (by decide)
  have hlength : pantry.objects.items.length < UInt64.size := by decide
  have hlisted : document.itemsUnder "__categories__".toList
      = [[.text "snacks".toList], [.text "drinks".toList]] := hitems
  refine ⟨hbuilt, document, hdocument, hlisted, ?_, ?_⟩
  · rw [hcan hlength, hlisted]
    decide
  · rw [hcan hlength, hlisted]
    decide

end Entities

end TaskGrammar
