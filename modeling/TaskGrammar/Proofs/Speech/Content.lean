import Mathlib.Data.List.Forall2
import TaskGrammar.Proofs.Speech.Derivation
import TaskGrammar.Proofs.Speech.RuleIds
import TaskGrammar.Proofs.Template.Scanning

/-!
# `TaskGrammar.Proofs.Speech.Content`: what a reader finds in a document

A document is written for programs that know markup and nothing of templates. `Shows` and
`ShowsAll` say what such a reader is to find for the segments of a template and for the
replacements of a rule, without the writer: text is one text, however many segments it
comes from, and a segment that stands for nothing leaves no trace.

* `shows_joinedPhrase` / `showsAll_bodyOf`: what is written for a template and for a rule
  shows them.
* `singleLine_documentOf`: the words of a document are those of the templates and the names.
* `readAll?_convert`: a reader of the document of a grammar finds its rules in order, then
  the lists of the entities, then the placeholders, and nothing else.
-/

set_option autoImplicit false

namespace TaskGrammar

open TaskGrammar.Markup

/-- A grammar without line breaks in its templates. -/
def Grammar.SingleLine (grammar : Grammar) : Prop :=
  ∀ rule ∈ grammar.rules, ∀ template ∈ rule.replacements, '\n' ∉ template

/-- Entities without line breaks in their names and in those of the objects' categories. -/
structure Entities.SingleLine (entities : Entities) : Prop where
  gestures : ∀ name ∈ entities.gestures.names, '\n' ∉ name
  names : ∀ name ∈ entities.names.names, '\n' ∉ name
  locations : ∀ name ∈ entities.locations.names, '\n' ∉ name
  objects : ∀ name ∈ entities.objects.names, '\n' ∉ name
  categories : ∀ object ∈ entities.objects.items, '\n' ∉ object.category.name
  questions : ∀ name ∈ entities.questions.names, '\n' ∉ name

namespace Speech

/-! ### What there is to find -/

/-- The phrase that a reader finds for the segments of a template. -/
inductive Shows (grammar : Grammar) : List Segment → Phrase → Prop
  | nil : Shows grammar [] []
  | literal {text : Text} {rest : List Segment} {phrase : Phrase}
      (after : Shows grammar rest phrase) :
      Shows grammar (.literal text :: rest) (joinWords text phrase)
  | undefined {id : Text} {rest : List Segment} {phrase : Phrase}
      (undefined : id ∉ grammar.rules.map Rule.id) (after : Shows grammar rest phrase) :
      Shows grammar (.reference id :: rest) (joinWords id phrase)
  | defined {id : Text} {rest : List Segment} {phrase : Phrase}
      (defined : id ∈ grammar.rules.map Rule.id) (after : Shows grammar rest phrase) :
      Shows grammar (.reference id :: rest) (.ruleRef (Rule.exportId id) :: phrase)
  | void {wildcard : Wildcard} {rest : List Segment} {phrase : Phrase}
      (void : wildcard.kind = .void) (after : Shows grammar rest phrase) :
      Shows grammar (.wildcard wildcard :: rest) phrase
  | listed {wildcard : Wildcard} {collection : Collection} {rest : List Segment} {phrase : Phrase}
      (listed : wildcard.kind.collection? = some collection) (after : Shows grammar rest phrase) :
      Shows grammar (.wildcard wildcard :: rest) (.ruleRef collection.ruleId :: phrase)
  | unknown {wildcard : Wildcard} {key : Text} {rest : List Segment} {phrase : Phrase}
      (unknown : wildcard.kind = .other key) (after : Shows grammar rest phrase) :
      Shows grammar (.wildcard wildcard :: rest) (.ruleRef (Wildcard.placeholderId key) :: phrase)

/-- The body that a reader finds for the replacements of a rule: an empty one, the one
replacement, or a choice of all. -/
inductive ShowsAll (grammar : Grammar) : List Text → Body → Prop
  | none : ShowsAll grammar [] .empty
  | one {template : Text} {phrase : Phrase}
      (shows : Shows grammar (Segment.segments template) phrase) :
      ShowsAll grammar [template] (.phrase phrase)
  | several {templates : List Text} {phrases : List Phrase} (several : 1 < templates.length)
      (shows : List.Forall₂ (fun template => Shows grammar (Segment.segments template))
        templates phrases) :
      ShowsAll grammar templates (.oneOf phrases)

/-- The rule that a reader finds for a list of names. -/
def enumeration (id : Text) (names : List Text) : DocumentRule :=
  { id := id, body := .oneOf (names.map fun name => joinWords name []) }

/-! ### What is written -/

/-- What is written for segments shows them, words in a row as one text. There is one case for
each kind of segment, and a reference is one of two, as is a wildcard of three. -/
theorem shows_joinedPhrase (grammar : Grammar) (segments : List Segment) :
    Shows grammar segments (joinedPhrase (segments.flatMap (partsOfSegment grammar))) := by
  induction segments with
  | nil => exact .nil
  | cons segment rest ih =>
    rw [List.flatMap_cons]
    cases segment with
    | literal text => exact .literal ih
    | reference id =>
      by_cases hid : grammar.contains id = true
      · rw [partsOfSegment, if_pos hid]
        exact .defined (Grammar.contains_iff_mem_ids.mp hid) ih
      · rw [partsOfSegment, if_neg hid]
        exact .undefined (fun hmem => hid (Grammar.contains_iff_mem_ids.mpr hmem)) ih
    | wildcard wildcard =>
      rw [partsOfSegment]
      rcases wildcard.kind.void_or_other_or_listed with
        hvoid | ⟨key, hother⟩ | ⟨collection, hlisted⟩
      · rw [hvoid]
        exact .void hvoid ih
      · rw [hother]
        exact .unknown hother ih
      · rw [Wildcard.Kind.ruleId?_of_collection? hlisted]
        exact .listed hlisted ih

/-- What is made of each element of a list stands to it as is known of the single elements. So what
is written for the rules of a table can be looked at rule by rule. -/
theorem forall₂_map_of_forall_mem {α β : Type} {related : α → β → Prop} {made : α → β}
    {items : List α} (h : ∀ item ∈ items, related item (made item)) :
    List.Forall₂ related items (items.map made) := by
  rw [List.forall₂_map_right_iff, List.forall₂_same]
  exact h

/-- What is written for replacements shows them. The number of replacements decides on the kind of
body, so the cases are those of the body. -/
theorem showsAll_bodyOf (grammar : Grammar) (replacements : List Text) :
    ShowsAll grammar replacements (bodyOf grammar replacements).joined := by
  match replacements with
  | [] => exact .none
  | [only] => exact .one (shows_joinedPhrase grammar _)
  | first :: second :: others =>
    -- Only now is there a choice to write.
    have hlength : 1 < (first :: second :: others).length := by simp
    refine .several hlength ?_
    rw [List.map_map]
    exact forall₂_map_of_forall_mem fun template _ => shows_joinedPhrase grammar _

/-- Segments show one phrase only. So what a reader finds is determined by the grammar, and to
show is no weaker than to be equal. -/
theorem Shows.eq_joinedPhrase {grammar : Grammar} {segments : List Segment} {phrase : Phrase}
    (h : Shows grammar segments phrase) :
    phrase = joinedPhrase (segments.flatMap (partsOfSegment grammar)) := by
  induction h with
  | nil => rfl
  | literal _ ih => rw [ih, List.flatMap_cons]; rfl
  | undefined undefined _ ih =>
    have hid := mt Grammar.contains_iff_mem_ids.mp undefined
    rw [ih, List.flatMap_cons, partsOfSegment, if_neg hid]
    rfl
  | defined defined _ ih =>
    rw [ih, List.flatMap_cons, partsOfSegment, if_pos (Grammar.contains_iff_mem_ids.mpr defined)]
    rfl
  | void void _ ih =>
    rw [ih, List.flatMap_cons, partsOfSegment, void]
    rfl
  | listed listed _ ih =>
    rw [ih, List.flatMap_cons, partsOfSegment, Wildcard.Kind.ruleId?_of_collection? listed]
    rfl
  | unknown unknown _ ih =>
    rw [ih, List.flatMap_cons, partsOfSegment, unknown]
    rfl

/-- Replacements show one body only, as each of them shows one phrase. -/
theorem ShowsAll.eq_joined {grammar : Grammar} {replacements : List Text} {body : Body}
    (h : ShowsAll grammar replacements body) : body = (bodyOf grammar replacements).joined := by
  cases h with
  | none => rfl
  | one shows => rw [shows.eq_joinedPhrase]; rfl
  | @several _ phrases several shows =>
    have hphrases : replacements.map (fun template => joinedPhrase (phraseOf grammar template))
        = phrases := by
      rw [← List.forall₂_eq_eq_eq, List.forall₂_map_left_iff]
      exact shows.imp fun template phrase hshows => hshows.eq_joinedPhrase.symm
    match replacements, several with
    | first :: second :: others, _ =>
      show Body.oneOf phrases
        = .oneOf (((first :: second :: others).map (phraseOf grammar)).map joinedPhrase)
      rw [← hphrases, List.map_map]
      rfl

/-- Rules show one list of rules only. The ids are asked for as well, since a body says nothing of
the rule that it belongs to. -/
theorem eq_map_of_showsAll {grammar : Grammar} {rules : List Rule} {others : List DocumentRule}
    (h : List.Forall₂ (fun rule other => other.id = Rule.exportId rule.id ∧
      ShowsAll grammar rule.replacements other.body) rules others) :
    others = rules.map fun rule => (ruleOf grammar rule).joined := by
  symm
  rw [← List.forall₂_eq_eq_eq, List.forall₂_map_left_iff]
  refine h.imp fun rule other hother => ?_
  obtain ⟨id, body⟩ := other
  obtain ⟨rfl, hbody⟩ := hother
  exact congrArg (DocumentRule.mk _) hbody.eq_joined.symm

/-- What is written for a list shows its names. -/
theorem joined_listRule (entities : Entities) (collection : Collection) :
    (listRule entities collection).joined
      = enumeration collection.ruleId (listed entities collection) := by
  simp only [listRule, DocumentRule.joined, Body.joined, enumeration, List.map_map]
  rfl

/-! ### Where parts come from -/

variable {grammar : Grammar} {entities : Entities} {root : Rule}

/-- The words that are written for a template are its own. They are a literal or a reference to no
rule, and both are spelled in the template as they are. -/
theorem mem_template_of_words {template text : Text}
    (h : .words text ∈ phraseOf grammar template) {c : Char} (hc : c ∈ text) : c ∈ template := by
  obtain ⟨segment, hsegment, hpart⟩ := List.mem_flatMap.mp h
  obtain ⟨source, hspells, hinfix⟩ := Segment.exists_spelling template hsegment
  refine hinfix.subset ?_
  cases segment with
  | literal words =>
    obtain rfl : text = words := Part.words.inj (List.mem_singleton.mp hpart)
    rw [show source = text from hspells]
    exact hc
  | reference id =>
    rw [partsOfSegment] at hpart
    split at hpart
    · cases List.mem_singleton.mp hpart
    · obtain rfl : text = id := Part.words.inj (List.mem_singleton.mp hpart)
      rw [show source = text from hspells]
      exact hc
  | wildcard wildcard =>
    -- A wildcard has no words at all.
    obtain ⟨id, -, hid⟩ := Option.map_eq_some_iff.mp (Option.mem_toList.mp hpart)
    cases hid

/-- The phrases among which a rule chooses are those of its templates. Without a template there is
the empty phrase. -/
theorem mem_choices_bodyOf {replacements : List Text} {phrase : Phrase}
    (h : phrase ∈ (bodyOf grammar replacements).choices) :
    replacements = [] ∧ phrase = [] ∨
      ∃ template ∈ replacements, phraseOf grammar template = phrase := by
  match replacements with
  | [] => exact .inl ⟨rfl, List.mem_singleton.mp h⟩
  | [only] => exact .inr ⟨only, List.mem_singleton.mpr rfl, (List.mem_singleton.mp h).symm⟩
  | first :: second :: others => exact .inr (List.mem_map.mp h)

/-- Each part of a document is written for a template or is a name in a list. The three kinds of
rules are gone through: those of the table, the lists and the placeholders. -/
theorem mem_phraseOf_or_listed (hroot : grammar.root? = some root) {rule : DocumentRule}
    (hrule : rule ∈ (documentOf grammar entities root).rules) {phrase : Phrase}
    (hphrase : phrase ∈ rule.body.choices) {part : Part} (hpart : part ∈ phrase) :
    (∃ rule ∈ grammar.rules, ∃ template ∈ rule.replacements, part ∈ phraseOf grammar template) ∨
      ∃ collection, ∃ name ∈ listed entities collection, part = .words name := by
  rcases List.mem_append.mp hrule with hfixed | hplaceholder
  · rcases List.mem_append.mp hfixed with htable | hlist
    · obtain ⟨tableRule, htableRule, rfl⟩ := List.mem_map.mp htable
      rcases mem_choices_bodyOf hphrase with ⟨-, rfl⟩ | ⟨template, htemplate, rfl⟩
      · cases hpart
      · exact .inl ⟨tableRule, (mem_tableRules hroot).mp htableRule, template, htemplate, hpart⟩
    · obtain ⟨collection, -, rfl⟩ := List.mem_map.mp hlist
      obtain ⟨name, hname, rfl⟩ := List.mem_map.mp hphrase
      exact .inr ⟨collection, name, hname, List.mem_singleton.mp hpart⟩
  · -- A placeholder has the empty phrase.
    obtain ⟨id, -, rfl⟩ := List.mem_map.mp hplaceholder
    obtain rfl := List.mem_singleton.mp hphrase
    cases hpart

/-- The names of a list are names of entities. Those of the categories are taken from the objects.
-/
theorem notMem_of_mem_listed (h : entities.SingleLine) (collection : Collection) :
    ∀ name ∈ listed entities collection, '\n' ∉ name := by
  cases collection with
  | gestures => exact h.gestures
  | names => exact h.names
  | locations => exact h.locations
  | objects => exact h.objects
  | questions => exact h.questions
  | categories =>
    intro name hname
    obtain ⟨object, hobject, rfl⟩ := List.mem_map.mp (mem_distinct.mp hname)
    exact h.categories object hobject

/-- No line break comes into the words of a document. -/
theorem singleLine_documentOf (hgrammar : grammar.SingleLine) (hentities : entities.SingleLine)
    (hroot : grammar.root? = some root) : (documentOf grammar entities root).SingleLine := by
  intro rule hrule phrase hphrase text hwords hbreak
  rcases mem_phraseOf_or_listed hroot hrule hphrase hwords with
    ⟨tableRule, htableRule, template, htemplate, hmem⟩ | ⟨collection, name, hname, heq⟩
  · exact hgrammar tableRule htableRule template htemplate (mem_template_of_words hmem hbreak)
  · obtain rfl := Part.words.inj heq
    exact notMem_of_mem_listed hentities collection text hname hbreak

/-! ### Reading a document -/

/-- The rules of a document, its words joined. In a list nothing is joined, as each of its phrases
is a single name. -/
theorem joined_documentOf (hroot : grammar.root? = some root) :
    (documentOf grammar entities root).joined.rules
      = { id := mainId, body := (bodyOf grammar root.replacements).joined } ::
          ((grammar.rules.filter fun rule => rule.id != Grammar.rootId).map fun rule =>
            (ruleOf grammar rule).joined) ++
        listOrder.map (fun collection =>
          enumeration collection.ruleId (listed entities collection)) ++
        (placeholders (tableRules grammar root)).map fun id => { id := id, body := .empty } := by
  have hmain : (ruleOf grammar root).joined
      = { id := mainId, body := (bodyOf grammar root.replacements).joined } := by
    rw [ruleOf, (Grammar.rule?_eq_some hroot).2]
    rfl
  have hlists : ∀ collection, (DocumentRule.joined ∘ listRule entities) collection
      = enumeration collection.ruleId (listed entities collection) := joined_listRule entities
  simp only [Document.joined, documentOf, tableRules, List.map_append, List.map_cons, List.map_map,
    hmain, funext hlists]
  rfl

/-- A reader of the document of a grammar without line breaks finds the root under the id
`Main`, the other rules of the table in its order, the six lists, each with an item for
each name, and an empty rule for each unknown key. What it finds for a rule are the
replacements in their order, and for each what its segments show. -/
theorem readAll?_convert (grammar : Grammar) (entities : Entities) (hgrammar : grammar.SingleLine)
    (hentities : entities.SingleLine) {xml : Text} (hconvert : convert grammar entities = .ok xml) :
    ∃ (root : Rule) (main : Body) (others : List DocumentRule) (unknown : List Text),
      grammar.root? = some root ∧ ShowsAll grammar root.replacements main ∧
      List.Forall₂ (fun rule other => other.id = Rule.exportId rule.id ∧
          ShowsAll grammar rule.replacements other.body)
        (grammar.rules.filter fun rule => rule.id != Grammar.rootId) others ∧
      unknown.Nodup ∧
      (∀ id, id ∈ unknown ↔ ∃ wildcard ∈ grammar.wildcards,
        Wildcard.keywords.lookup wildcard.key = none ∧ Wildcard.placeholderId wildcard.key = id) ∧
      Tree.readAll? (Text.encode xml) = some [Document.tree {
        rules :=
          { id := mainId, body := main } :: others ++
            [enumeration "__gestures__".toList entities.gestures.names,
              enumeration "__names__".toList entities.names.names,
              enumeration "__locations__".toList entities.locations.names,
              enumeration "__objects__".toList entities.objects.names,
              enumeration "__categories__".toList
                (entities.objects.items.map fun object => object.category.name).eraseDups,
              enumeration "__questions__".toList entities.questions.names] ++
            unknown.map fun id => { id := id, body := .empty } }] := by
  obtain ⟨document, hdocument, rfl⟩ := convert_eq_ok_iff.mp hconvert
  obtain ⟨root, hroot, -, rfl⟩ := ofGrammar_eq_ok_iff.mp hdocument
  refine ⟨root, (bodyOf grammar root.replacements).joined,
    (grammar.rules.filter fun rule => rule.id != Grammar.rootId).map fun rule =>
      (ruleOf grammar rule).joined,
    placeholders (tableRules grammar root), hroot, showsAll_bodyOf grammar root.replacements, ?_,
    nodup_distinct _, fun id => mem_placeholders hroot, ?_⟩
  · -- The other rules of the table, each with what is written for it.
    exact forall₂_map_of_forall_mem fun rule _ => ⟨rfl, showsAll_bodyOf grammar rule.replacements⟩
  · have hread := Document.readAll?_encode_render (singleLine_documentOf hgrammar hentities hroot)
    rw [Document.tree, joined_documentOf hroot] at hread
    rw [hread, ← distinct_eq_eraseDups]
    rfl

/-- A grammar with blanks and marks to be kept apart from the layout, a reference that leads
nowhere, something that is not said, a rule without replacements and an empty one. -/
def visit : Grammar :=
  Grammar.ofRules [] .unknown
    [{ id := "$Main".toList
       replacements := ["{name} {room}".toList, "<b> & $ghost{void}.".toList] },
      { id := "$rest".toList, replacements := [] },
      { id := "$pause".toList, replacements := [[]] }]

/-- What a reader finds in the document of this grammar. -/
theorem readAll?_visit :
    ∃ xml, convert visit oneRoom = .ok xml ∧
      Tree.readAll? (Text.encode xml) = some [Document.tree {
        rules := [
          { id := "Main".toList
            body := .oneOf [
              [.ruleRef "__names__".toList, .words " ".toList, .ruleRef "__locations__".toList],
              [.words "<b> & $ghost.".toList]] },
          { id := "rest".toList, body := .empty },
          { id := "pause".toList, body := .phrase [] },
          { id := "__gestures__".toList, body := .oneOf [] },
          { id := "__names__".toList, body := .oneOf [] },
          { id := "__locations__".toList
            body := .oneOf [[.words "office".toList], [.words "desk".toList]] },
          { id := "__objects__".toList, body := .oneOf [] },
          { id := "__categories__".toList, body := .oneOf [] },
          { id := "__questions__".toList, body := .oneOf [] }] }] := by
  -- The templates are scanned once, here.
  have hscan : Segment.segments "{name} {room}".toList
      = [.wildcard ⟨"name".toList, [], true⟩, .literal " ".toList,
        .wildcard ⟨"room".toList, [], true⟩] := by decide +kernel
  have hscan' : Segment.segments "<b> & $ghost{void}.".toList
      = [.literal "<b> & ".toList, .reference "$ghost".toList,
        .wildcard ⟨"void".toList, [], true⟩, .literal ".".toList] := by decide +kernel
  have hgrammar : visit.SingleLine := by
    have hall : ∀ rule ∈ visit.rules, ∀ template ∈ rule.replacements, '\n' ∉ template := by
      decide +kernel
    exact hall
  have hentities : oneRoom.SingleLine := by
    constructor
    all_goals decide +kernel
  obtain ⟨xml, hconvert⟩ : ∃ xml, convert visit oneRoom = .ok xml := ⟨_, rfl⟩
  obtain ⟨root, main, others, unknown, hroot, hmain, hothers, -, hunknown, hread⟩ :=
    readAll?_convert visit oneRoom hgrammar hentities hconvert
  refine ⟨xml, hconvert, hread.trans ?_⟩
  -- What shows a part of the grammar is the only thing that does.
  obtain rfl : (⟨"$Main".toList, ["{name} {room}".toList, "<b> & $ghost{void}.".toList]⟩ : Rule)
      = root := Option.some.inj hroot
  obtain rfl := hmain.eq_joined
  obtain rfl := eq_map_of_showsAll hothers
  obtain rfl : unknown = [] := by
    have hknown : ∀ wildcard ∈ visit.wildcards,
        Wildcard.keywords.lookup wildcard.key ≠ none := by decide +kernel
    refine List.eq_nil_iff_forall_not_mem.mpr fun id hid => ?_
    obtain ⟨wildcard, hwildcard, hlookup, -⟩ := (hunknown id).mp hid
    exact hknown wildcard hwildcard hlookup
  rw [show (visit.rules.filter fun rule => rule.id != Grammar.rootId)
    = [⟨"$rest".toList, []⟩, ⟨"$pause".toList, [[]]⟩] from rfl]
  simp only [ruleOf, DocumentRule.joined, bodyOf, Body.joined, phraseOf, hscan, hscan',
    Segment.segments_nil, List.map_cons, List.map_nil]
  rfl

end Speech

end TaskGrammar
