import TaskGrammar.Proofs.Expansion.Derivation
import TaskGrammar.Proofs.Expansion.Equations
import TaskGrammar.Proofs.Speech.Conversion
import TaskGrammar.Proofs.Speech.Lists
import TaskGrammar.Proofs.Speech.Reading
import TaskGrammar.Random.Script

/-!
# `TaskGrammar.Proofs.Speech.Derivation`: what a document can say

A document is read as a grammar by `Document.Says` and `Document.Derives`. This is a second
account of a sentence, next to `Yields`: it knows nothing of filters and draws, and reads the
entities off the lists of the document.

* `derives_ruleOf` / `derives_listRule`: how to read a reference to a rule of the grammar,
  and one to the list of a collection.
* `text_mem_listed`: every entity that a wildcard may stand for is in its list.
* `says_of_yields`: the simulation. Whatever segments may become, their phrase can say.
* `convert_covers_task`: the document of a grammar covers every task of it, by its rules and by
  the elements that are written.
-/

set_option autoImplicit false

namespace TaskGrammar.Speech

open TaskGrammar.Markup

/-! ### The rules of a converted grammar -/

section Documents

variable {grammar : Grammar} {entities : Entities} {root : Rule}

/-- A body chooses among the phrases of the replacements, be it one or several. Without
replacements there is no template to speak of. -/
theorem phraseOf_mem_choices {template : Text} {replacements : List Text}
    (h : template ∈ replacements) :
    phraseOf grammar template ∈ (bodyOf grammar replacements).choices := by
  match replacements with
  | [] => cases h
  | [only] =>
    obtain rfl := List.mem_singleton.mp h
    exact List.mem_singleton.mpr rfl
  | first :: second :: rest => exact List.mem_map_of_mem h

/-- What the phrase of a replacement says can be derived from its rule. -/
theorem derives_ruleOf (hroot : grammar.root? = some root) {id : Text} {rule : Rule}
    (hrule : grammar.rule? id = some rule) {template text : Text}
    (htemplate : template ∈ rule.replacements)
    (h : (documentOf grammar entities root).Says (phraseOf grammar template) text) :
    (documentOf grammar entities root).Derives (Rule.exportId id) text := by
  obtain ⟨hmem, rfl⟩ := Grammar.rule?_eq_some hrule
  exact h.derives (ruleOf_mem_documentOf hroot hmem) (phraseOf_mem_choices htemplate)

/-- Nothing can be derived from a rule without replacements, the empty text that is. -/
theorem derives_nil_ruleOf (hroot : grammar.root? = some root) {id : Text} {rule : Rule}
    (hrule : grammar.rule? id = some rule) (hempty : rule.replacements = []) :
    (documentOf grammar entities root).Derives (Rule.exportId id) [] := by
  obtain ⟨hmem, rfl⟩ := Grammar.rule?_eq_some hrule
  refine Document.Says.nil.derives (ruleOf_mem_documentOf hroot hmem) ?_
  show [] ∈ (bodyOf grammar rule.replacements).choices
  rw [hempty]
  exact List.mem_singleton.mpr rfl

/-- Each listed name can be derived from the list. -/
theorem derives_listRule {collection : Collection} {name : Text}
    (h : name ∈ listed entities collection) :
    (documentOf grammar entities root).Derives collection.ruleId name := by
  have hsays : (documentOf grammar entities root).Says [.words name] (name ++ []) := .words .nil
  rw [List.append_nil] at hsays
  exact hsays.derives (listRule_mem_documentOf collection) (List.mem_map_of_mem h)

/-! ### The simulation -/

/-- A remark does not change what a token says. -/
theorem text_annotate (token : Token) (remark? : Option Text) :
    (token.annotate remark?).text = token.text := by
  cases remark? <;> rfl

/-- An entity that a wildcard may stand for is in the list that the wildcard refers to. A filter
makes no difference, as the list is that of the whole collection. -/
theorem text_mem_listed (hentities : entities.Built) {kind : Wildcard.Kind} {token : Token}
    (h : entities.Offers kind token) :
    ∃ collection : Collection, kind.ruleId? = some collection.ruleId ∧
      token.text ∈ listed entities collection := by
  cases kind with
  | category =>
    obtain ⟨category, hmem, rfl⟩ := h
    refine ⟨.categories, rfl, ?_⟩
    -- The one list that is computed anew from the objects.
    rw [listed_categories hentities]
    exact List.mem_map_of_mem hmem
  | gesture =>
    obtain ⟨gesture, hmem, rfl⟩ := h
    exact ⟨.gestures, rfl, List.mem_map_of_mem hmem⟩
  | question =>
    obtain ⟨question, hmem, rfl⟩ := h
    exact ⟨.questions, rfl, List.mem_map_of_mem hmem⟩
  | name filter =>
    obtain ⟨person, hmem, -, rfl⟩ := h
    exact ⟨.names, rfl, List.mem_map_of_mem hmem⟩
  | location filter =>
    obtain ⟨location, hmem, -, rfl⟩ := h
    exact ⟨.locations, rfl, List.mem_map_of_mem hmem⟩
  | object filter =>
    obtain ⟨object, hmem, -, rfl⟩ := h
    exact ⟨.objects, rfl, List.mem_map_of_mem hmem⟩
  | void => cases h
  | other key => cases h

/-- What a wildcard may add, its part of the document can say. Remarks have no text, so they need
not be in the document. -/
theorem says_of_adds (hentities : entities.Built) {wildcard : Wildcard} {tokens : List Token}
    (h : entities.Adds wildcard tokens) :
    (documentOf grammar entities root).Says (partsOfSegment grammar (.wildcard wildcard))
      (tokens.flatMap Token.text) := by
  cases h with
  | remark void =>
    -- A remark has no text, and the document has no part for it.
    have hparts : partsOfSegment grammar (.wildcard wildcard) = [] := by
      simp only [partsOfSegment, void, Wildcard.Kind.ruleId?, Option.map_none, Option.toList_none]
    rw [hparts]
    cases wildcard.metadata <;> exact .nil
  | entity offered =>
    obtain ⟨collection, hid, hmem⟩ := text_mem_listed hentities offered
    simp only [partsOfSegment, hid, Option.map_some, Option.toList_some, List.flatMap_singleton,
      text_annotate]
    exact derives_listRule hmem

/-- Whatever segments may become, their phrase in the document can say, as long as their
references are defined and lead to rules whose references are defined in turn. -/
theorem says_of_yields (hentities : entities.Built) (hroot : grammar.root? = some root)
    (hdefined : ∀ id next, grammar.Reaches Grammar.rootId id → grammar.Refers id next →
      grammar.contains next = true)
    {segments : List Segment} {tokens : List Token} (h : Yields grammar entities segments tokens)
    (hrefs : ∀ id, Segment.reference id ∈ segments →
      grammar.contains id = true ∧ grammar.Reaches Grammar.rootId id) :
    (documentOf grammar entities root).Says (segments.flatMap (partsOfSegment grammar))
      (tokens.flatMap Token.text) := by
  have hpart : ∀ {id}, grammar.contains id = true →
      partsOfSegment grammar (.reference id) = [.ruleRef (Rule.exportId id)] := by
    intro id hid
    simp only [partsOfSegment, hid, if_true]
  induction h with
  | nil => exact .nil
  | literal _ ih =>
    exact .words (ih fun id hid => hrefs id (List.mem_cons_of_mem _ hid))
  | wildcard added _ ih =>
    rw [List.flatMap_cons, List.flatMap_append]
    exact (says_of_adds hentities added).append
      (ih fun id hid => hrefs id (List.mem_cons_of_mem _ hid))
  | undefined undefined _ _ =>
    -- The document would have the id as words, and the task nothing.
    have hid := (hrefs _ List.mem_cons_self).1
    rw [Grammar.contains_eq_false_of_rule? undefined] at hid
    cases hid
  | empty found empty _ ih =>
    rw [List.flatMap_cons, hpart (Grammar.contains_of_rule? found)]
    exact (derives_nil_ruleOf hroot found empty).append
      (ih fun id hid => hrefs id (List.mem_cons_of_mem _ hid))
  | reference found chosen _ _ ihinner ih =>
    rw [List.flatMap_cons, hpart (Grammar.contains_of_rule? found), List.flatMap_append]
    have hreaches := (hrefs _ List.mem_cons_self).2
    -- The references of the chosen template are one step further from the root.
    have hinner := ihinner fun next hnext =>
      have href : grammar.Refers _ next := ⟨_, found, _, chosen, hnext⟩
      ⟨hdefined _ next hreaches href, hreaches.tail href⟩
    exact (derives_ruleOf hroot found chosen hinner).append
      (ih fun id hid => hrefs id (List.mem_cons_of_mem _ hid))

end Documents

/-- The document of a grammar covers everything that the grammar is expanded to. If every
reference within reach of the root is defined and the categories are those of the
objects, then the text of each task, whatever the limit and the random source, can be
derived from the main rule of the document that the conversion writes. This holds of the rules
of the document, and of the elements that its events build, which is what is written. -/
theorem convert_covers_task {σ : Type} [RandomSource σ] (grammar : Grammar) (entities : Entities)
    (limit : Nat) (source : σ) (hentities : entities.Built)
    (hdefined : ∀ id next, grammar.Reaches Grammar.rootId id → grammar.Refers id next →
      grammar.contains next = true)
    {xml : Text} (hconvert : convert grammar entities = .ok xml) {task : Task}
    (htask : (((Expansion.mk grammar entities limit).task : Draw σ Task).outcome source).1
      = .ok task) :
    ∃ document tree, Document.ofGrammar grammar entities = .ok document ∧
      document.render = xml ∧ document.Derives mainId task.text ∧
      document.BuildsTree tree ∧ Tree.Derives tree.Means mainId task.text := by
  obtain ⟨document, hdocument, hrender⟩ := convert_eq_ok_iff.mp hconvert
  obtain ⟨root, hroot, -, rfl⟩ := ofGrammar_eq_ok_iff.mp hdocument
  have hyields := (Expansion.task_satisfies (Expansion.mk grammar entities limit)
    Random.respects_any).result_of_ok trivial htask
  have hcontains := Grammar.contains_of_rule? hroot
  have hsays := says_of_yields hentities hroot hdefined hyields fun id hid => by
    obtain rfl := Segment.reference.inj (List.mem_singleton.mp hid)
    exact ⟨hcontains, Relation.ReflTransGen.refl⟩
  -- Reading the root as a reference makes the task a case of the simulation.
  have hmain : [Segment.reference Grammar.rootId].flatMap (partsOfSegment grammar)
      = [.ruleRef mainId] := by
    simp only [List.flatMap_singleton, partsOfSegment, hcontains, if_true]
    rfl
  rw [hmain] at hsays
  exact ⟨_, _, hdocument, hrender, hsays, Document.buildsTree _,
    (derives_tree_iff means_tree_iff).mpr hsays⟩

/-- A grammar whose sentences come from a choice, a rule inside a rule, a rule without
replacements and two wildcards. -/
def errand : Grammar :=
  Grammar.ofRules [] .unknown
    [{ id := "$Main".toList,
        replacements := ["$go to {room}{void meta: now}".toList, "stop".toList] },
      { id := "$go".toList, replacements := ["walk$please".toList] },
      { id := "$please".toList, replacements := [] }]

/-- One room, and a place in it. -/
def oneRoom : Entities :=
  Entities.empty.withLocations
    [.ofRoom "office".toList, .inside "desk".toList "office".toList true true]

/-- The first choice of the errand, told from the source of zeros: a reference, words, the
only room and a remark. -/
theorem task_errand :
    (((Expansion.mk errand oneRoom 3).task : Draw Script Task).outcome (Script.ofWords [0])).1
      = .ok { tokens := [.literal "walk".toList, .literal " to ".toList,
          ⟨"office".toList, ["type: room".toList]⟩, ⟨[], ["now".toList]⟩] } := by
  -- The rules that are met, their templates scanned, and what is drawn on the way.
  have hmain : errand.rule? Grammar.rootId = some ⟨Grammar.rootId,
      ["$go to {room}{void meta: now}".toList, "stop".toList]⟩ := rfl
  have hgo : errand.rule? "$go".toList = some ⟨"$go".toList, ["walk$please".toList]⟩ := rfl
  have hplease : errand.rule? "$please".toList = some ⟨"$please".toList, []⟩ := rfl
  have hscan : Segment.segments "$go to {room}{void meta: now}".toList
      = [.reference "$go".toList, .literal " to ".toList, .wildcard ⟨"room".toList, [], true⟩,
        .wildcard ⟨"void".toList, " meta: now".toList, true⟩] := by decide +kernel
  have hscan' : Segment.segments "walk$please".toList
      = [.literal "walk".toList, .reference "$please".toList] := by decide +kernel
  have hchoice : (Expansion.chooseReplacement
      ["$go to {room}{void meta: now}".toList, "stop".toList] : Draw Script (Option Text)).outcome
        (Script.ofWords [0])
      = (.ok (some "$go to {room}{void meta: now}".toList), Script.ofWords [0]) := rfl
  have hroom : (Expansion.expandWildcard oneRoom ⟨"room".toList, [], true⟩ :
      Draw Script (List Token)).outcome (Script.ofWords [0])
      = (.ok [⟨"office".toList, ["type: room".toList]⟩], Script.ofWords [0]) := rfl
  have hremark : (⟨"void".toList, " meta: now".toList, true⟩ : Wildcard).metadata
      = some "now".toList := by decide +kernel
  have hvoid : (Expansion.expandWildcard oneRoom ⟨"void".toList, " meta: now".toList, true⟩ :
      Draw Script (List Token)) = pure [⟨[], ["now".toList]⟩] := by
    show pure (Option.toList (Option.map _ (Wildcard.metadata _))) = _
    rw [hremark]
    rfl
  have hwalk : (Expansion.expandRule ⟨errand, oneRoom, 3⟩ [Grammar.rootId] "$go".toList :
      Draw Script (List Token)) = pure [.literal "walk".toList] := by
    rw [Expansion.expandRule_of_lt hgo (by decide) (by decide)]
    show Expansion.expandSegments _ _ (Segment.segments "walk$please".toList) = _
    rw [hscan']
    simp only [Expansion.expandSegments]
    rw [Expansion.expandRule_of_lt hplease (by decide) (by decide)]
    rfl
  -- From the root on, every step has been computed above.
  unfold Expansion.task Expansion.taskFrom
  rw [Expansion.expandRule_of_lt hmain List.not_mem_nil (by decide)]
  simp only [Draw.outcome_bind, hchoice, Expansion.expandChosen, hscan,
    Expansion.expandSegments, hwalk, hroom, hvoid, Draw.outcome_pure]
  rfl

/-- The text of this task, "walk to office", is one that the document derives, and one that can
be read off the elements of the document. -/
theorem convert_covers_errand :
    ∃ document tree, Document.ofGrammar errand oneRoom = .ok document ∧
      document.Derives mainId "walk to office".toList ∧ document.BuildsTree tree ∧
      Tree.Derives tree.Means mainId "walk to office".toList := by
  have hdefined : ∀ rule ∈ errand.rules, ∀ next ∈ rule.references,
      errand.contains next = true := by decide +kernel
  obtain ⟨xml, hconvert⟩ : ∃ xml, convert errand oneRoom = .ok xml := ⟨_, rfl⟩
  obtain ⟨document, tree, hdocument, -, hsays, hbuilds, helements⟩ :=
    convert_covers_task errand oneRoom 3 (Script.ofWords [0]) (.withLocations _ .empty)
      (fun id next _ ⟨rule, hrule, template, htemplate, hscan⟩ =>
        hdefined rule (Grammar.rule?_eq_some hrule).1 next
          (Rule.mem_references.mpr ⟨template, htemplate, hscan⟩))
      hconvert task_errand
  exact ⟨document, tree, hdocument, hsays, hbuilds, helements⟩

end TaskGrammar.Speech
