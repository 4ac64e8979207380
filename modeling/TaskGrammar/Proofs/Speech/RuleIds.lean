import TaskGrammar.Proofs.Grammar.Parsed
import TaskGrammar.Proofs.Speech.Conversion
import TaskGrammar.Proofs.Speech.Lists
import TaskGrammar.Proofs.Template.Keys

/-!
# `TaskGrammar.Proofs.Speech.RuleIds`: when the ids of a document are distinct

The ids of a document have three producers. The rules of the grammar give theirs without
the sigil, the lists have fixed ones, and the placeholders have ids made from the keys of
wildcards. Each producer alone repeats no id, and a grammar that is converted has none of
the ids of the lists. What is left are the placeholders:

* a key that is the plural of a collection, as in `{names}`, makes the id of a list;
* a wildcard without a key makes `____`, which is too short to be reserved, so that a rule
  `$____` may have it.

The theorems:

* `ruleIds_eq_map_id`: the rule elements of a document, as it is written, are its rules.
* `nodup_map_id_documentOf_iff`: the ids are distinct exactly if no placeholder has the id
  of a list or of a rule of the grammar.
* `nodup_ruleIds_iff`: for the grammar of a file, exactly if neither of the two happens.
-/

set_option autoImplicit false

namespace TaskGrammar

open TaskGrammar.Markup

/-! ### Rule elements -/

/-- The id of the rule element that an event opens. -/
def Markup.Event.ruleId? : Event → Option Text
  | .startTag name attributes | .emptyTag name attributes =>
    if name = "rule".toList then attributes.lookup "id".toList else none
  | _ => none

namespace Speech

/-- The ids of the rule elements of a document, in the order in which it has them. -/
def Document.ruleIds (document : Document) : List Text :=
  document.events.filterMap Event.ruleId?

/-- No part of a phrase opens a rule. -/
theorem filterMap_ruleId?_phrase (phrase : Phrase) :
    (phrase.map Part.event).filterMap Event.ruleId? = [] := by
  rw [List.filterMap_map, List.filterMap_eq_nil_iff]
  intro part _
  cases part <;> rfl

/-- Nor does any tag of a choice, be it of the choice itself or of an item. -/
theorem filterMap_ruleId?_choice (phrases : List Phrase) :
    (choiceEvents phrases).filterMap Event.ruleId? = [] := by
  cases phrases with
  | nil => rfl
  | cons first rest =>
    have hitem : ∀ phrase, (itemEvents phrase).filterMap Event.ruleId? = [] := by
      intro phrase
      unfold itemEvents
      rw [List.filterMap_append, List.filterMap_append, filterMap_ruleId?_phrase]
      rfl
    have hitems : ((first :: rest).flatMap itemEvents).filterMap Event.ruleId? = [] := by
      rw [List.filterMap_flatMap, List.flatMap_eq_nil_iff]
      exact fun phrase _ => hitem phrase
    unfold choiceEvents
    rw [List.filterMap_append, List.filterMap_append, hitems]
    rfl

/-- The elements of a rule open this rule and no other. This holds for each of the three bodies. -/
theorem filterMap_ruleId?_rule (rule : DocumentRule) :
    rule.events.filterMap Event.ruleId? = [rule.id] := by
  unfold DocumentRule.events
  split
  · rfl
  · rw [List.filterMap_append, List.filterMap_append, filterMap_ruleId?_phrase]
    rfl
  · rw [List.filterMap_append, List.filterMap_append, filterMap_ruleId?_choice]
    rfl

/-- The rule elements of a document are its rules. Ids that come twice come twice on both sides. -/
theorem ruleIds_eq_map_id (document : Document) :
    document.ruleIds = document.rules.map DocumentRule.id := by
  have hrules : (document.rules.flatMap DocumentRule.events).filterMap Event.ruleId?
      = document.rules.map DocumentRule.id := by
    rw [List.filterMap_flatMap]
    simp only [filterMap_ruleId?_rule]
    exact List.map_eq_flatMap.symm
  unfold Document.ruleIds Document.events
  rw [List.filterMap_append, List.filterMap_append, hrules]
  exact List.append_nil _

/-! ### The three producers -/

section Documents

variable {grammar : Grammar} {entities : Entities} {root : Rule}

/-- The ids come from the rules of the grammar, the lists and the placeholders. -/
theorem map_id_documentOf :
    (documentOf grammar entities root).rules.map DocumentRule.id
      = (tableRules grammar root).map (fun rule => Rule.exportId rule.id) ++
          listOrder.map Collection.ruleId ++ placeholders (tableRules grammar root) := by
  unfold documentOf
  simp only [List.map_append, List.map_map]
  congr 1
  exact List.map_id'' (fun _ => rfl) _

/-- A segment refers to a placeholder exactly if it is a wildcard of an unknown key. That the key
may be the word of a collection is not looked at. -/
theorem placeholder?_eq_some_iff {segment : Segment} {id : Text} :
    placeholder? segment = some id ↔ ∃ wildcard, segment = .wildcard wildcard ∧
      Wildcard.keywords.lookup wildcard.key = none ∧ Wildcard.placeholderId wildcard.key = id := by
  constructor
  · intro h
    unfold placeholder? at h
    split at h
    · rename_i wildcard
      split at h
      · rename_i key hkind
        obtain ⟨hlookup, rfl⟩ := Wildcard.Kind.ofKey_eq_other_iff.mp hkind
        rw [hkind, Wildcard.Kind.ruleId?_other] at h
        exact ⟨wildcard, rfl, hlookup, Option.some.inj h⟩
      · cases h
    · cases h
  · rintro ⟨wildcard, rfl, hlookup, rfl⟩
    have hkind : wildcard.kind = .other wildcard.key :=
      Wildcard.Kind.ofKey_eq_other_iff.mpr ⟨hlookup, rfl⟩
    unfold placeholder?
    simp only [hkind, Wildcard.Kind.ruleId?_other]

/-- The placeholders are those of the wildcards of an unknown key in the grammar. All rules are
looked at, also those that nothing refers to. -/
theorem mem_placeholders (hroot : grammar.root? = some root) {id : Text} :
    id ∈ placeholders (tableRules grammar root) ↔ ∃ wildcard ∈ grammar.wildcards,
      Wildcard.keywords.lookup wildcard.key = none ∧ Wildcard.placeholderId wildcard.key = id := by
  unfold placeholders
  simp only [mem_distinct, List.mem_flatMap, List.mem_filterMap, placeholder?_eq_some_iff,
    mem_tableRules hroot, Grammar.mem_wildcards]
  constructor
  · rintro ⟨rule, hrule, template, htemplate, _, hsegment, wildcard, rfl, hid⟩
    exact ⟨wildcard, ⟨rule, hrule, template, htemplate, hsegment⟩, hid⟩
  · rintro ⟨wildcard, ⟨rule, hrule, template, htemplate, hsegment⟩, hid⟩
    exact ⟨rule, hrule, template, htemplate, _, hsegment, wildcard, rfl, hid⟩

/-- The rules of the grammar keep their ids apart. The ids differ in the table, and to take the
sigil off does not make two of them the same. -/
theorem nodup_exportIds (hroot : grammar.root? = some root)
    (hsigil : ∀ id ∈ grammar.rules.map Rule.id, id.head? = some Segment.sigil) :
    ((tableRules grammar root).map fun rule => Rule.exportId rule.id).Nodup := by
  have hids : ((tableRules grammar root).map Rule.id).Nodup := by
    unfold tableRules
    rw [List.map_cons, List.nodup_cons, (Grammar.rule?_eq_some hroot).2]
    constructor
    · intro h
      obtain ⟨rule, hrule, hid⟩ := List.mem_map.mp h
      simpa [hid] using (List.mem_filter.mp hrule).2
    · exact grammar.nodup_ids.sublist (List.filter_sublist.map Rule.id)
  have hmap : ((tableRules grammar root).map fun rule => Rule.exportId rule.id)
      = ((tableRules grammar root).map Rule.id).map Rule.exportId := by
    rw [List.map_map]
    rfl
  rw [hmap]
  refine hids.map_on fun id hid id' hid' heq => ?_
  -- The ids differ, and they all lose the same sigil.
  have hof : ∀ id ∈ (tableRules grammar root).map Rule.id, id.head? = some Segment.sigil := by
    intro id hid
    obtain ⟨rule, hrule, rfl⟩ := List.mem_map.mp hid
    exact hsigil _ (List.mem_map_of_mem ((mem_tableRules hroot).mp hrule))
  exact Rule.exportId_inj (hof id hid) (hof id' hid') heq

/-- The rules of the grammar and the lists keep their ids apart, since those of the lists are
reserved. -/
theorem nodup_exportIds_append_ruleIds (hroot : grammar.root? = some root)
    (hsigil : ∀ id ∈ grammar.rules.map Rule.id, id.head? = some Segment.sigil)
    (hfree : ∀ rule ∈ grammar.rules, isReservedId (Rule.exportId rule.id) = false) :
    ((tableRules grammar root).map (fun rule => Rule.exportId rule.id) ++
      listOrder.map Collection.ruleId).Nodup := by
  have hlists : (listOrder.map Collection.ruleId).Nodup := by decide
  refine List.nodup_append.mpr ⟨nodup_exportIds hroot hsigil, hlists, ?_⟩
  intro id hid id' hid' heq
  obtain ⟨rule, hrule, rfl⟩ := List.mem_map.mp hid
  obtain ⟨collection, -, rfl⟩ := List.mem_map.mp hid'
  have hreserved : isReservedId collection.ruleId = true := by
    cases collection <;> decide
  rw [← heq, hfree rule ((mem_tableRules hroot).mp hrule)] at hreserved
  cases hreserved

/-- The placeholder of a key can be a rule of the grammar as well only if the key is empty. Of any
other key it is one of the reserved ids, which no rule has. -/
theorem exportId_eq_placeholderId_iff
    (hnamed : ∀ id ∈ grammar.rules.map Rule.id, Rule.IsNamed id)
    (hfree : ∀ rule ∈ grammar.rules, isReservedId (Rule.exportId rule.id) = false) {key : Text} :
    (∃ rule ∈ grammar.rules, Rule.exportId rule.id = Wildcard.placeholderId key) ↔
      key = [] ∧ grammar.contains "$____".toList = true := by
  rw [Grammar.contains_iff_mem_ids, List.mem_map]
  constructor
  · rintro ⟨rule, hrule, hid⟩
    have hkey : key = [] := by
      by_contra hne
      have hreserved := isReservedId_placeholderId hne
      rw [← hid, hfree rule hrule] at hreserved
      cases hreserved
    have hsigil := Rule.sigil_exportId (hnamed _ (List.mem_map_of_mem hrule)).head?
    rw [hid, hkey] at hsigil
    exact ⟨hkey, rule, hrule, hsigil.symm⟩
  · rintro ⟨rfl, rule, hrule, hid⟩
    exact ⟨rule, hrule, by rw [hid]; rfl⟩

/-- The ids of a document are distinct exactly if no wildcard of the grammar asks for the
plural of a collection, and none is without a key while there is a rule `$____`. -/
theorem nodup_map_id_documentOf_iff (hroot : grammar.root? = some root)
    (hnamed : ∀ id ∈ grammar.rules.map Rule.id, Rule.IsNamed id)
    (hfree : ∀ rule ∈ grammar.rules, isReservedId (Rule.exportId rule.id) = false) :
    ((documentOf grammar entities root).rules.map DocumentRule.id).Nodup ↔
      ∀ wildcard ∈ grammar.wildcards, (∀ collection : Collection, wildcard.key ≠ collection.word) ∧
        ¬ (wildcard.key = [] ∧ grammar.contains "$____".toList = true) := by
  rw [map_id_documentOf, List.nodup_append]
  constructor
  · rintro ⟨-, -, hfresh⟩ wildcard hwildcard
    -- Either way the wildcard would have a placeholder whose id comes up before.
    constructor
    · intro collection hkey
      have hplaceholder : collection.ruleId ∈ placeholders (tableRules grammar root) := by
        rw [mem_placeholders hroot, collection.ruleId_eq_placeholderId]
        exact ⟨wildcard, hwildcard, by rw [hkey]; exact collection.lookup_word, by rw [hkey]⟩
      have hlist : collection.ruleId ∈ listOrder.map Collection.ruleId :=
        List.mem_map_of_mem (by cases collection <;> decide)
      exact hfresh _ (List.mem_append_right _ hlist) _ hplaceholder rfl
    · intro h
      obtain ⟨rule, hrule, hid⟩ := (exportId_eq_placeholderId_iff hnamed hfree).mpr h
      have hplaceholder : Rule.exportId rule.id ∈ placeholders (tableRules grammar root) := by
        rw [mem_placeholders hroot, hid]
        exact ⟨wildcard, hwildcard, by rw [h.1]; decide, rfl⟩
      have htable := List.mem_map_of_mem (f := fun rule => Rule.exportId rule.id)
        ((mem_tableRules hroot).mpr hrule)
      exact hfresh _ (List.mem_append_left _ htable) _ hplaceholder rfl
  · intro h
    have hsigil : ∀ id ∈ grammar.rules.map Rule.id, id.head? = some Segment.sigil :=
      fun id hid => (hnamed id hid).head?
    refine ⟨nodup_exportIds_append_ruleIds hroot hsigil hfree, nodup_distinct _, ?_⟩
    intro id hid id' hid' heq
    obtain ⟨wildcard, hwildcard, -, rfl⟩ := (mem_placeholders hroot).mp hid'
    obtain ⟨hword, hempty⟩ := h wildcard hwildcard
    -- An id that comes up again is that of a placeholder; before, it was a rule's or a list's.
    rcases List.mem_append.mp hid with htable | hlist
    · obtain ⟨rule, hrule, rfl⟩ := List.mem_map.mp htable
      exact hempty ((exportId_eq_placeholderId_iff hnamed hfree).mp
        ⟨rule, (mem_tableRules hroot).mp hrule, heq⟩)
    · obtain ⟨collection, -, rfl⟩ := List.mem_map.mp hlist
      rw [collection.ruleId_eq_placeholderId, Wildcard.placeholderId_inj] at heq
      exact hword collection heq.symm

end Documents

/-! ### Grammar files -/

/-- In the document of a grammar file no two rule elements have the same id, unless a
wildcard asks for the plural of a collection, whose placeholder has the id of the list, or
one is without a key in a grammar with a rule `$____`. Then two have. -/
theorem nodup_ruleIds_iff (name source : Text) (entities : Entities) {grammar : Grammar}
    (hparse : Grammar.parse name source = .ok grammar) {xml : Text}
    (hconvert : convert grammar entities = .ok xml) :
    ∃ document, Document.ofGrammar grammar entities = .ok document ∧ document.render = xml ∧
      (document.ruleIds.Nodup ↔ ∀ wildcard ∈ grammar.wildcards,
        (∀ collection : Collection, wildcard.key ≠ collection.word) ∧
          ¬ (wildcard.key = [] ∧ grammar.contains "$____".toList = true)) := by
  obtain ⟨document, hdocument, hrender⟩ := convert_eq_ok_iff.mp hconvert
  obtain ⟨root, hroot, hfree, rfl⟩ := ofGrammar_eq_ok_iff.mp hdocument
  refine ⟨_, hdocument, hrender, ?_⟩
  rw [ruleIds_eq_map_id]
  exact nodup_map_id_documentOf_iff hroot (Grammar.parse_ids_isNamed hparse) hfree

/-- A grammar with an unknown key and with a rule `$____`, but no wildcard without a key. -/
def polite : Grammar :=
  Grammar.ofRules [] .unknown
    [{ id := "$Main".toList, replacements := ["{pron}, $____".toList] },
      { id := "$____".toList, replacements := ["please".toList] }]

/-- The document of its file has nine rules of different ids. -/
theorem nodup_ruleIds_polite :
    Grammar.parse [] "$Main = {pron}, $____\n$____ = please".toList = .ok polite ∧
      ∃ document, Document.ofGrammar polite .empty = .ok document ∧ document.ruleIds.Nodup := by
  have hparse : Grammar.parse [] "$Main = {pron}, $____\n$____ = please".toList = .ok polite := rfl
  have hkeys : ∀ wildcard ∈ polite.wildcards, wildcard.key = "pron".toList := by
    decide +kernel
  obtain ⟨xml, hconvert⟩ : ∃ xml, convert polite .empty = .ok xml := ⟨_, rfl⟩
  obtain ⟨document, hdocument, -, hnodup⟩ := nodup_ruleIds_iff _ _ .empty hparse hconvert
  -- Its only key is neither a word of a collection nor empty.
  refine ⟨hparse, document, hdocument, hnodup.mpr fun wildcard hwildcard => ?_⟩
  rw [hkeys wildcard hwildcard]
  exact ⟨fun collection => by cases collection <;> decide, by decide⟩

/-- Two files whose documents repeat an id: `__names__` for the list and the placeholder,
`____` for the placeholder and a rule of the grammar. -/
theorem exists_not_nodup_ruleIds :
    (∃ grammar document, Grammar.parse [] "$Main = {names}".toList = .ok grammar ∧
      Document.ofGrammar grammar .empty = .ok document ∧ ¬ document.ruleIds.Nodup) ∧
    (∃ grammar document,
      Grammar.parse [] "$Main = {}, $____\n$____ = please".toList = .ok grammar ∧
      Document.ofGrammar grammar .empty = .ok document ∧ ¬ document.ruleIds.Nodup) := by
  constructor
  · refine ⟨Grammar.ofRules [] .unknown [⟨"$Main".toList, ["{names}".toList]⟩],
      _, rfl, rfl, ?_⟩
    rw [ruleIds_eq_map_id]
    decide +kernel
  · refine ⟨Grammar.ofRules [] .unknown [⟨"$Main".toList, ["{}, $____".toList]⟩,
      ⟨"$____".toList, ["please".toList]⟩], _, rfl, rfl, ?_⟩
    rw [ruleIds_eq_map_id]
    decide +kernel

end Speech

end TaskGrammar
