import TaskGrammar.Proofs.Speech.Content
import TaskGrammar.Proofs.Speech.Signs
import TaskGrammar.Proofs.Template.Boundaries

/-!
# `TaskGrammar.Proofs.Speech.CrossReferences`: no reference leads nowhere

A document refers to rules while it is being written; the rules come from the table, from
the lists and, last, from the placeholders that came up on the way. Whatever the ids of the
grammar are, each reference finds its rule. Text takes the place of a reference only where
the table has no rule to refer to.

* `mem_map_id_of_ruleRef`: what a phrase of a document refers to is a rule of the document.
* `ruleRefIds_of_readAll?` / `ruleIds_of_readAll?`: the references and rules that a reader of
  the document finds are those that were written.
* `follows_phraseOf`: what each segment of a template becomes.
* `readsRule_ruleOf`: how it is read again, sign by sign.
* `ruleRefs_resolve`: the references that a reader of the document finds are among the rules
  that it finds, and a reference becomes text exactly if the table has no rule of its id.
-/

set_option autoImplicit false

namespace TaskGrammar.Speech

open TaskGrammar.Markup

variable {grammar : Grammar} {entities : Entities} {root : Rule}

/-! ### References and rules -/

/-- What is written for a template refers to rules of the document. A reference of the grammar is
written only if its rule is there, a known wildcard refers to a list, and the document has all of
these; an unknown one has its placeholder at the end. -/
theorem mem_map_id_of_mem_phraseOf (hroot : grammar.root? = some root) {rule : Rule}
    (hrule : rule ∈ grammar.rules) {template : Text} (htemplate : template ∈ rule.replacements)
    {id : Text} (h : .ruleRef id ∈ phraseOf grammar template) :
    id ∈ (documentOf grammar entities root).rules.map DocumentRule.id := by
  obtain ⟨segment, hsegment, hpart⟩ := List.mem_flatMap.mp h
  cases segment with
  | literal text => cases List.mem_singleton.mp hpart
  | reference other =>
    rw [partsOfSegment] at hpart
    split at hpart
    · rename_i hdefined
      obtain rfl : id = Rule.exportId other := Part.ruleRef.inj (List.mem_singleton.mp hpart)
      obtain ⟨target, htarget, rfl⟩ := List.mem_map.mp (Grammar.contains_iff_mem_ids.mp hdefined)
      exact List.mem_map_of_mem (f := DocumentRule.id) (ruleOf_mem_documentOf hroot htarget)
    · cases List.mem_singleton.mp hpart
  | wildcard wildcard =>
    obtain ⟨_, hid, heq⟩ := Option.map_eq_some_iff.mp (Option.mem_toList.mp hpart)
    obtain rfl := Part.ruleRef.inj heq
    rcases wildcard.kind.void_or_other_or_listed with hvoid | ⟨key, hother⟩ | ⟨collection, hlisted⟩
    · rw [hvoid] at hid
      cases hid
    · -- The key has put its placeholder on the list that the document ends with.
      obtain ⟨hlookup, rfl⟩ := Wildcard.Kind.ofKey_eq_other_iff.mp hother
      rw [hother] at hid
      obtain rfl := Option.some.inj hid
      have hwildcard := Grammar.mem_wildcards.mpr ⟨rule, hrule, template, htemplate, hsegment⟩
      have hplaceholder := (mem_placeholders hroot).mpr ⟨wildcard, hwildcard, hlookup, rfl⟩
      rw [map_id_documentOf]
      exact List.mem_append_right _ hplaceholder
    · rw [Wildcard.Kind.ruleId?_of_collection? hlisted] at hid
      obtain rfl := Option.some.inj hid
      exact List.mem_map_of_mem (f := DocumentRule.id) (listRule_mem_documentOf collection)

/-- What a phrase of a document refers to is a rule of the document. -/
theorem mem_map_id_of_ruleRef (hroot : grammar.root? = some root) {rule : DocumentRule}
    (hrule : rule ∈ (documentOf grammar entities root).rules) {phrase : Phrase}
    (hphrase : phrase ∈ rule.body.choices) {id : Text} (h : .ruleRef id ∈ phrase) :
    id ∈ (documentOf grammar entities root).rules.map DocumentRule.id := by
  rcases mem_phraseOf_or_listed hroot hrule hphrase h with
    ⟨tableRule, htableRule, template, htemplate, hmem⟩ | ⟨collection, name, -, heq⟩
  · exact mem_map_id_of_mem_phraseOf hroot htableRule htemplate hmem
  · cases heq

/-- The references that a reader of a document finds: the layout comes between the tags and
changes none of them. -/
theorem ruleRefIds_of_readAll? {document : Document} {events : List Event}
    (hread : Event.readAll? document.render = some events) :
    events.filterMap Event.ruleRefId? = document.content.filterMap Event.ruleRefId? := by
  have hlaid := (Event.readAll?_renderAll document.isPlain_content).symm.trans hread
  rw [← Option.some.inj hlaid, Event.filterMap_joined_laidOut fun _ => rfl]

/-- The rule elements that a reader of a document finds. -/
theorem ruleIds_of_readAll? {document : Document} {events : List Event}
    (hread : Event.readAll? document.render = some events) :
    events.filterMap Event.ruleId? = document.rules.map DocumentRule.id := by
  have hlaid := (Event.readAll?_renderAll document.isPlain_content).symm.trans hread
  rw [← Option.some.inj hlaid, Event.filterMap_joined_laidOut fun _ => rfl, ← ruleIds_eq_map_id]
  rfl

/-- A reader of the document of a grammar finds no reference without a rule. -/
theorem mem_ruleIds_of_mem_ruleRefIds (hroot : grammar.root? = some root) {events : List Event}
    (hread : Event.readAll? (documentOf grammar entities root).render = some events) {id : Text}
    (h : id ∈ events.filterMap Event.ruleRefId?) : id ∈ events.filterMap Event.ruleId? := by
  rw [ruleRefIds_of_readAll? hread] at h
  obtain ⟨rule, hrule, phrase, hphrase, href⟩ := Document.exists_ruleRef_mem h
  rw [ruleIds_of_readAll? hread]
  exact mem_map_id_of_ruleRef hroot hrule hphrase href

/-! ### What becomes text -/

/-- The phrases that are written in a body. -/
def Body.phrases : Body → List Phrase
  | .empty => []
  | .phrase only => [only]
  | .oneOf phrases => phrases

/-- What a segment becomes. A reference becomes its own text exactly if the table has no
rule of its id, and a reference to that rule exactly if it has one. -/
def Becomes (grammar : Grammar) : Segment → Phrase → Prop
  | .literal text, piece => piece = [.words text]
  | .reference id, piece =>
    (piece = [.words id] ↔ id ∉ grammar.rules.map Rule.id) ∧
      (piece = [.ruleRef (Rule.exportId id)] ↔ id ∈ grammar.rules.map Rule.id)
  | .wildcard wildcard, piece => piece = (wildcard.kind.ruleId?.map Part.ruleRef).toList

/-- A phrase that goes through a template segment by segment. -/
def Follows (grammar : Grammar) (template : Text) (phrase : Phrase) : Prop :=
  ∃ pieces : List Phrase, pieces.flatten = phrase ∧
    List.Forall₂ (Becomes grammar) (Segment.segments template) pieces

/-- The part that is written for a segment is the one that the relation asks for. For a reference
the two cases exclude each other, as words and a reference are not the same part. -/
theorem becomes_partsOfSegment (grammar : Grammar) (segment : Segment) :
    Becomes grammar segment (partsOfSegment grammar segment) := by
  cases segment with
  | literal text => exact rfl
  | wildcard wildcard => exact rfl
  | reference id =>
    by_cases hid : grammar.contains id = true
    · have hmem := Grammar.contains_iff_mem_ids.mp hid
      rw [partsOfSegment, if_pos hid]
      refine ⟨⟨fun h => ?_, fun h => absurd hmem h⟩, fun _ => hmem, fun _ => rfl⟩
      cases h
    · have hmem := mt Grammar.contains_iff_mem_ids.mpr hid
      rw [partsOfSegment, if_neg hid]
      refine ⟨⟨fun _ => hmem, fun _ => rfl⟩, fun h => ?_, fun h => absurd h hmem⟩
      cases h

/-- A phrase has one piece for each segment of its template, in order. -/
theorem follows_phraseOf (grammar : Grammar) (template : Text) :
    Follows grammar template (phraseOf grammar template) := by
  refine ⟨(Segment.segments template).map (partsOfSegment grammar), ?_, ?_⟩
  · exact List.flatMap_def.symm
  · exact forall₂_map_of_forall_mem fun segment _ => becomes_partsOfSegment grammar segment

/-- A body has one phrase for each template, whatever kind of body it is. -/
theorem phrases_bodyOf (grammar : Grammar) (replacements : List Text) :
    (bodyOf grammar replacements).phrases = replacements.map (phraseOf grammar) := by
  match replacements with
  | [] => rfl
  | [only] => rfl
  | first :: second :: others => rfl

/-! ### What is read for a template -/

/-- The signs of a segment in a written document. For a reference they are the characters of its
own text exactly if the table has no rule of its id, and a reference to this rule exactly if it
has one. -/
def ReadsAs (grammar : Grammar) : Segment → List Sign → Prop
  | .literal text, signs => signs = text.flatMap Sign.ofChar
  | .reference id, signs =>
    (signs = id.map Sign.character ↔ id ∉ grammar.rules.map Rule.id) ∧
      (signs = [.ruleRef (Rule.exportId id)] ↔ id ∈ grammar.rules.map Rule.id)
  | .wildcard wildcard, signs => signs = (wildcard.kind.ruleId?.map Sign.ruleRef).toList

/-- Signs that go through a template segment by segment. -/
def ReadsTemplate (grammar : Grammar) (template : Text) (signs : List Sign) : Prop :=
  ∃ pieces : List (List Sign), pieces.flatten = signs ∧
    List.Forall₂ (ReadsAs grammar) (Segment.segments template) pieces

/-- No character of a reference is passed over: it is the sigil or one of an identifier. So its
text can be told from the layout, which is made of feeds and tabs. -/
theorem flatMap_ofChar_reference {template id : Text}
    (h : Segment.reference id ∈ Segment.segments template) :
    id.flatMap Sign.ofChar = id.map Sign.character := by
  obtain ⟨name, rfl, hname⟩ := Segment.isCanonical_of_mem_segments template h
  rw [List.map_eq_flatMap]
  refine List.flatMap_congr fun c hc => if_neg ?_
  rcases List.mem_cons.mp hc with rfl | hc
  · decide
  · have hidentifier := List.all_eq_true.mp hname c hc
    rintro (rfl | rfl)
    · revert hidentifier
      decide
    · revert hidentifier
      decide

/-- Characters are no reference, even if there is just one of them. -/
theorem map_character_ne_ruleRef (text id : Text) :
    text.map Sign.character ≠ [.ruleRef id] := by
  intro heq
  have hmem : Sign.ruleRef id ∈ text.map Sign.character := heq ▸ List.mem_singleton.mpr rfl
  obtain ⟨c, -, hc⟩ := List.mem_map.mp hmem
  cases hc

/-- The part that is written for a segment of a template is read as the segment. That the segment
is one of a template matters for references only, whose characters are then known. -/
theorem readsAs_partsOfSegment {grammar : Grammar} {template : Text} {segment : Segment}
    (h : segment ∈ Segment.segments template) :
    ReadsAs grammar segment (signsOfPhrase (partsOfSegment grammar segment)) := by
  cases segment with
  | literal text => exact List.append_nil _
  | wildcard wildcard =>
    show signsOfPhrase (wildcard.kind.ruleId?.map Part.ruleRef).toList = _
    cases wildcard.kind.ruleId? <;> rfl
  | reference id =>
    have hdistinct := map_character_ne_ruleRef id (Rule.exportId id)
    by_cases hid : grammar.contains id = true
    · have hmem := Grammar.contains_iff_mem_ids.mp hid
      have hsigns : signsOfPhrase (partsOfSegment grammar (.reference id))
          = [.ruleRef (Rule.exportId id)] := by
        rw [partsOfSegment, if_pos hid]
        rfl
      rw [ReadsAs, hsigns]
      exact ⟨iff_of_false hdistinct.symm (not_not.mpr hmem), iff_of_true rfl hmem⟩
    · have hmem := mt Grammar.contains_iff_mem_ids.mpr hid
      have hsigns : signsOfPhrase (partsOfSegment grammar (.reference id))
          = id.map Sign.character := by
        rw [partsOfSegment, if_neg hid, ← flatMap_ofChar_reference h]
        exact List.append_nil _
      rw [ReadsAs, hsigns]
      exact ⟨iff_of_true rfl hmem, iff_of_false hdistinct hmem⟩

/-- The phrase of a template is read as the template, segment by segment. -/
theorem readsTemplate_phraseOf (grammar : Grammar) (template : Text) :
    ReadsTemplate grammar template (signsOfPhrase (phraseOf grammar template)) := by
  refine ⟨(Segment.segments template).map fun segment =>
    signsOfPhrase (partsOfSegment grammar segment), ?_, ?_⟩
  · rw [phraseOf, signsOfPhrase, List.flatMap_assoc]
    exact List.flatMap_def.symm
  · exact forall₂_map_of_forall_mem fun segment hsegment => readsAs_partsOfSegment hsegment

/-- Signs that go through a rule template by template, behind the sign of the rule. -/
def ReadsRule (grammar : Grammar) (rule : Rule) (signs : List Sign) : Prop :=
  ∃ choices : List (List Sign), signs = .rule (Rule.exportId rule.id) :: signsOfChoice choices ∧
    List.Forall₂ (ReadsTemplate grammar) rule.replacements choices

/-- And a rule is read as its templates, one after the other. Two templates or more are read as
items, and a single one is read without. -/
theorem readsRule_ruleOf (grammar : Grammar) (rule : Rule) :
    ReadsRule grammar rule (ruleOf grammar rule).signs := by
  refine ⟨rule.replacements.map fun template => signsOfPhrase (phraseOf grammar template), ?_, ?_⟩
  · obtain ⟨id, replacements⟩ := rule
    match replacements with
    | [] => rfl
    | [only] => rfl
    | first :: second :: others =>
      refine congrArg (Sign.rule (Rule.exportId id) :: ·) ?_
      exact (List.flatMap_map _ _ _).trans (List.flatMap_map _ _ _).symm
  · exact forall₂_map_of_forall_mem fun template _ => readsTemplate_phraseOf grammar template

/-- The signs of the document of a grammar go through the rules of the table, and behind them
the lists start. -/
theorem exists_readsRule (grammar : Grammar) (entities : Entities) (root : Rule) :
    ∃ (elements : List (List Sign)) (generated : List Sign),
      (documentOf grammar entities root).rules.flatMap DocumentRule.signs
        = elements.flatten ++ generated ∧
      List.Forall₂ (ReadsRule grammar) (tableRules grammar root) elements ∧
      generated.head? = some (.rule Collection.gestures.ruleId) := by
  refine ⟨(tableRules grammar root).map fun rule => (ruleOf grammar rule).signs,
    (listOrder.map (listRule entities) ++ (placeholders (tableRules grammar root)).map
      fun id => DocumentRule.mk id .empty).flatMap DocumentRule.signs, ?_, ?_, ?_⟩
  · rw [documentOf, List.append_assoc, List.flatMap_append, List.flatMap_map, List.flatMap_def]
  · exact forall₂_map_of_forall_mem fun rule _ => readsRule_ruleOf grammar rule
  · rfl

/-- Each reference that a reader of the document of a grammar finds is one to a rule that it
finds as well, whatever the ids of the grammar are. The rules of the table are written
template by template, and a reference becomes text exactly if the table has no rule of its
id.

Both are said of what is read from the written text. There the second part is up to line feeds
and tabs in literal text, which a reader cannot tell from the layout; a reference has none. It
is said once more of the phrases that were written, where nothing is left out. -/
theorem ruleRefs_resolve (grammar : Grammar) (entities : Entities) {xml : Text}
    (hconvert : convert grammar entities = .ok xml) :
    (∃ events, Event.readAll? xml = some events ∧
      (∀ id ∈ events.filterMap Event.ruleRefId?, id ∈ events.filterMap Event.ruleId?) ∧
      ∃ (root : Rule) (elements : List (List Sign)) (generated : List Sign),
        grammar.root? = some root ∧
        events.flatMap Event.signs = elements.flatten ++ generated ∧
        List.Forall₂ (ReadsRule grammar)
          (root :: grammar.rules.filter fun rule => rule.id != Grammar.rootId) elements ∧
        generated.head? = some (.rule Collection.gestures.ruleId)) ∧
    ∃ (document : Document) (root : Rule) (elements generated : List DocumentRule),
      Document.ofGrammar grammar entities = .ok document ∧ document.render = xml ∧
      grammar.root? = some root ∧ document.rules = elements ++ generated ∧
      List.Forall₂ (fun rule element => element.id = Rule.exportId rule.id ∧
          List.Forall₂ (Follows grammar) rule.replacements element.body.phrases)
        (root :: grammar.rules.filter fun rule => rule.id != Grammar.rootId) elements := by
  obtain ⟨document, hdocument, rfl⟩ := convert_eq_ok_iff.mp hconvert
  obtain ⟨root, hroot, -, rfl⟩ := ofGrammar_eq_ok_iff.mp hdocument
  constructor
  · have hread := Event.readAll?_renderAll (documentOf grammar entities root).isPlain_content
    obtain ⟨elements, generated, hsigns, helements, hgenerated⟩ :=
      exists_readsRule grammar entities root
    exact ⟨_, hread, fun id hid => mem_ruleIds_of_mem_ruleRefIds hroot hread hid, root, elements,
      generated, hroot, (signs_of_readAll? hread).trans hsigns, helements, hgenerated⟩
  · refine ⟨_, root, (tableRules grammar root).map (ruleOf grammar), _, hdocument, rfl, hroot,
      List.append_assoc _ _ _, ?_⟩
    refine forall₂_map_of_forall_mem fun rule _ => ⟨rfl, ?_⟩
    rw [ruleOf, phrases_bodyOf]
    exact forall₂_map_of_forall_mem fun template _ => follows_phraseOf grammar template

/-- A grammar in which two ids differ by the sigil alone, and one is the sigil, with a
reference to no rule and a wildcard of an unknown key. -/
def crossing : Grammar :=
  Grammar.ofRules [] .unknown
    [{ id := "$Main".toList, replacements := ["$go {pron} to $ghost".toList, "$!".toList] },
      { id := "$go".toList, replacements := ["walk".toList] },
      { id := "go".toList, replacements := [] },
      { id := "$".toList, replacements := ["stop".toList] }]

/-- A reader finds three references in its document, and the rules of all of them. The
reference to no rule is read as its own text. -/
theorem ruleRefs_resolve_crossing :
    ∃ xml events, convert crossing .empty = .ok xml ∧ Event.readAll? xml = some events ∧
      events.filterMap Event.ruleRefId? = ["go".toList, "__pron__".toList, []] ∧
      (∀ id ∈ events.filterMap Event.ruleRefId?, id ∈ events.filterMap Event.ruleId?) ∧
      (events.flatMap Event.signs).take 18
        = [.rule "Main".toList, .item, .ruleRef "go".toList, .character ' ',
            .ruleRef "__pron__".toList] ++
          " to $ghost".toList.map Sign.character ++ [.item, .ruleRef [], .character '!'] := by
  obtain ⟨xml, hconvert⟩ : ∃ xml, convert crossing .empty = .ok xml := ⟨_, rfl⟩
  -- What is read is computed from the rules of the document, without reading it.
  obtain ⟨⟨events, hread, hresolve, -⟩, -⟩ := ruleRefs_resolve crossing .empty hconvert
  obtain rfl : (documentOf crossing .empty ⟨"$Main".toList,
      ["$go {pron} to $ghost".toList, "$!".toList]⟩).render = xml := Except.ok.inj hconvert
  refine ⟨_, events, hconvert, hread, ?_, hresolve, ?_⟩
  · rw [ruleRefIds_of_readAll? hread]
    decide +kernel
  · rw [signs_of_readAll? hread]
    decide +kernel

end TaskGrammar.Speech
