import TaskGrammar.Proofs.Expansion.Completeness
import TaskGrammar.Proofs.Speech.Content
import TaskGrammar.Proofs.Speech.Derivation
import TaskGrammar.Proofs.Speech.RuleIds
import TaskGrammar.Proofs.Speech.Wildcards

/-!
# `TaskGrammar.Proofs.Speech.Completeness`: all that a document allows can be said

`says_of_yields` shows that a document allows every sentence of its grammar. The converse
is the simulation the other way round, from the phrases of a document to the segments of the
grammar. It needs wildcards that stand for whole collections, since a list has no filters.

It also needs to know which rule a reference means. The document of a grammar may have a
second rule of an id, an empty placeholder, and who follows a reference there says nothing.
`Document.firsts` is the document for a reader who follows a reference to the first rule of
its id.

* `meansFirst_tree_iff`: the elements of these rules are the first ones of their ids.
* `find?_documentOf`: the first rule of an id is the grammar's or a list.
* `exists_yields_of_says`: what a phrase can say, its segments can become.
* `canSay_of_derives`: what can be derived from the main rule of a document, by first rules
  or with no id repeated, is the text of a task.
* `exists_derives_not_canSay`: with an id repeated there may be more.
-/

set_option autoImplicit false

namespace TaskGrammar

open TaskGrammar.Markup

/-- The keys that stand for a whole collection or for nothing. -/
def Wildcard.plainKeys : List Text :=
  ["category".toList, "gesture".toList, "name".toList, "location".toList, "object".toList,
    "question".toList, "void".toList]

/-- A grammar whose rules have ids with a sigil, and in which nothing within reach of the
root leads back to itself, refers to a rule that is not there, or asks for a part of a
collection or something unknown. -/
structure Grammar.IsPlain (grammar : Grammar) : Prop where
  sigil : ∀ id ∈ grammar.rules.map Rule.id, id.head? = some Segment.sigil
  acyclic : grammar.Acyclic
  defined : ∀ id next, grammar.Reaches Grammar.rootId id → grammar.Refers id next →
    grammar.contains next = true
  keys : ∀ id rule template wildcard, grammar.Reaches Grammar.rootId id →
    grammar.rule? id = some rule → template ∈ rule.replacements →
    Segment.wildcard wildcard ∈ Segment.segments template → wildcard.key ∈ Wildcard.plainKeys

/-- Segments as a plain grammar has them within reach of its root. -/
structure Grammar.PlainSegments (grammar : Grammar) (segments : List Segment) : Prop where
  defined : ∀ id, Segment.reference id ∈ segments → grammar.contains id = true
  reaches : ∀ id, Segment.reference id ∈ segments → grammar.Reaches Grammar.rootId id
  keys : ∀ wildcard, Segment.wildcard wildcard ∈ segments → wildcard.key ∈ Wildcard.plainKeys

/-- Some of the segments of a plain template are plain, too. This is what the induction on the
derivation needs, which goes through the segments from the front. -/
theorem Grammar.PlainSegments.of_subset {grammar : Grammar} {segments part : List Segment}
    (h : grammar.PlainSegments segments) (hsubset : part ⊆ segments) :
    grammar.PlainSegments part where
  defined id hid := h.defined id (hsubset hid)
  reaches id hid := h.reaches id (hsubset hid)
  keys wildcard hmem := h.keys wildcard (hsubset hmem)

/-- The templates of a rule within reach are plain: their references are one step further. -/
theorem Grammar.IsPlain.plainSegments {grammar : Grammar} (h : grammar.IsPlain) {id : Text}
    {rule : Rule} (hreaches : grammar.Reaches Grammar.rootId id)
    (hrule : grammar.rule? id = some rule) {template : Text}
    (htemplate : template ∈ rule.replacements) :
    grammar.PlainSegments (Segment.segments template) where
  defined next hnext := h.defined id next hreaches ⟨rule, hrule, template, htemplate, hnext⟩
  reaches _ hnext := hreaches.tail ⟨rule, hrule, template, htemplate, hnext⟩
  keys wildcard hscan := h.keys id rule template wildcard hreaches hrule htemplate hscan

/-- A plain wildcard that does not stand for nothing may stand for any member of its
collection. -/
theorem Wildcard.candidates_eq_members {wildcard : Wildcard} (h : wildcard.key ∈ plainKeys) :
    wildcard.kind = .void ∨ ∃ collection, wildcard.kind.collection? = some collection ∧
      ∀ entities : Entities, entities.candidates wildcard.kind = entities.members collection := by
  -- A filter that admits everything leaves the members as they are.
  have hall : ∀ {α : Type} [Entity α] (admits : α → Bool) (items : List α),
      (∀ item, admits item = true) → (items.filter admits).map Entity.token
        = items.map Entity.token := by
    intro α _ admits items hadmits
    rw [List.filter_eq_self.mpr fun item _ => hadmits item]
  unfold kind
  simp only [plainKeys, List.mem_cons, List.not_mem_nil, or_false] at h
  rcases h with h | h | h | h | h | h | h <;> rw [h]
  · exact .inr ⟨.categories, rfl, fun _ => rfl⟩
  · exact .inr ⟨.gestures, rfl, fun _ => rfl⟩
  · exact .inr ⟨.names, rfl, fun _ => hall NameFilter.any.admits _ fun _ => rfl⟩
  · exact .inr ⟨.locations, rfl, fun _ => hall LocationFilter.any.admits _ fun _ => rfl⟩
  · exact .inr ⟨.objects, rfl, fun _ => hall ObjectFilter.any.admits _ fun _ => rfl⟩
  · exact .inr ⟨.questions, rfl, fun _ => rfl⟩
  · exact .inl rfl

/-- A kind has no more candidates than its collection has members. So a bound on what is listed is
a bound on every draw. -/
theorem Entities.length_candidates_lt {entities : Entities} {bound : Nat} (hbound : 0 < bound)
    (h : ∀ collection, (entities.members collection).length < bound) (kind : Wildcard.Kind) :
    (entities.candidates kind).length < bound := by
  cases kind with
  | category => exact h .categories
  | gesture => exact h .gestures
  | question => exact h .questions
  | name filter =>
    refine Nat.lt_of_le_of_lt ?_ (h .names)
    simp only [candidates, members, List.length_map]
    exact List.length_filter_le _ _
  | location filter =>
    refine Nat.lt_of_le_of_lt ?_ (h .locations)
    simp only [candidates, members, List.length_map]
    exact List.length_filter_le _ _
  | object filter =>
    refine Nat.lt_of_le_of_lt ?_ (h .objects)
    simp only [candidates, members, List.length_map]
    exact List.length_filter_le _ _
  | void | other key => exact hbound

namespace Speech

/-! ### The first rule of an id -/

/-- The rules of a document that come first under their ids. -/
def Document.firsts (document : Document) : Document :=
  { rules := document.rules.filter fun rule =>
      decide (document.rules.find? (fun other => other.id == rule.id) = some rule) }

/-- The first rules are those that a search for their ids finds. -/
theorem mem_firsts {document : Document} {rule : DocumentRule} :
    rule ∈ document.firsts.rules ↔
      document.rules.find? (fun other => other.id == rule.id) = some rule := by
  unfold Document.firsts
  rw [List.mem_filter, decide_eq_true_iff]
  exact ⟨fun h => h.2, fun h => ⟨List.mem_of_find?_eq_some h, h⟩⟩

/-- Where no id is repeated, a rule is found under its id. -/
theorem find?_eq_some_of_nodup {rules : List DocumentRule}
    (hnodup : (rules.map DocumentRule.id).Nodup) {rule : DocumentRule} (h : rule ∈ rules) :
    rules.find? (fun other => other.id == rule.id) = some rule := by
  obtain ⟨found, hfound⟩ : ∃ found, rules.find? (fun other => other.id == rule.id) = some found :=
    Option.isSome_iff_exists.mp (List.find?_isSome.mpr ⟨rule, h, by simp⟩)
  have hid : found.id = rule.id := by simpa using List.find?_some hfound
  rw [hfound, List.inj_on_of_nodup_map hnodup (List.mem_of_find?_eq_some hfound) h hid]

/-- Then every rule comes first. -/
theorem firsts_eq_self {document : Document} (h : document.ruleIds.Nodup) :
    document.firsts = document := by
  rw [ruleIds_eq_map_id] at h
  have hall : ∀ rule ∈ document.rules,
      decide (document.rules.find? (fun other => other.id == rule.id) = some rule) = true :=
    fun rule hrule => decide_eq_true (find?_eq_some_of_nodup h hrule)
  unfold Document.firsts
  rw [List.filter_eq_self.mpr hall]

/-- The first rule element of an id is the element of the first rule of this id. To look for it
among the elements is to look for it among the rules. -/
theorem meansFirst_tree_iff {document : Document} {id : Text} {tree : Tree} :
    document.tree.MeansFirst id tree ↔
      ∃ rule ∈ document.firsts.rules, rule.id = id ∧ rule.tree = tree := by
  have hsame : ((fun tree : Tree => tree.ruleId? == some id) ∘ DocumentRule.tree)
      = fun rule => rule.id == id := by
    funext rule
    simp [ruleId?_tree]
  rw [Tree.MeansFirst, rules_tree, List.find?_map, hsame, Option.map_eq_some_iff]
  constructor
  · rintro ⟨rule, hfound, rfl⟩
    have hid : rule.id = id := by simpa using List.find?_some hfound
    exact ⟨rule, mem_firsts.mpr (hid ▸ hfound), hid, rfl⟩
  · rintro ⟨rule, hrule, rfl, rfl⟩
    exact ⟨rule, mem_firsts.mp hrule, rfl⟩

section Documents

variable {grammar : Grammar} {entities : Entities} {root : Rule}

/-- The rules of the grammar and the lists come first under their ids. Their ids differ from each
other, and whatever shares one with them is a placeholder and comes later. -/
theorem find?_documentOf (hroot : grammar.root? = some root)
    (hsigil : ∀ id ∈ grammar.rules.map Rule.id, id.head? = some Segment.sigil)
    (hfree : ∀ rule ∈ grammar.rules, isReservedId (Rule.exportId rule.id) = false)
    {rule : DocumentRule}
    (h : (∃ tableRule ∈ grammar.rules, rule = ruleOf grammar tableRule) ∨
      ∃ collection, rule = listRule entities collection) :
    (documentOf grammar entities root).rules.find? (fun other => other.id == rule.id)
      = some rule := by
  have hnodup : (((tableRules grammar root).map (ruleOf grammar) ++
      listOrder.map (listRule entities)).map DocumentRule.id).Nodup := by
    rw [List.map_append, List.map_map, List.map_map]
    exact nodup_exportIds_append_ruleIds hroot hsigil hfree
  have hmem : rule ∈ (tableRules grammar root).map (ruleOf grammar) ++
      listOrder.map (listRule entities) := by
    rcases h with ⟨tableRule, hrule, rfl⟩ | ⟨collection, rfl⟩
    · exact List.mem_append_left _ (List.mem_map_of_mem ((mem_tableRules hroot).mpr hrule))
    · exact List.mem_append_right _ (List.mem_map_of_mem (by cases collection <;> decide))
  -- The placeholders come after the others and are not looked at.
  unfold documentOf
  rw [List.find?_append, find?_eq_some_of_nodup hnodup hmem, Option.some_or]

/-- So it is theirs that a reader finds under these ids. This is where a document with an id twice
is made to say no more than the grammar. -/
theorem eq_of_mem_firsts (hroot : grammar.root? = some root)
    (hsigil : ∀ id ∈ grammar.rules.map Rule.id, id.head? = some Segment.sigil)
    (hfree : ∀ rule ∈ grammar.rules, isReservedId (Rule.exportId rule.id) = false)
    {rule other : DocumentRule}
    (h : (∃ tableRule ∈ grammar.rules, rule = ruleOf grammar tableRule) ∨
      ∃ collection, rule = listRule entities collection)
    (hother : other ∈ (documentOf grammar entities root).firsts.rules) (hid : other.id = rule.id) :
    other = rule := by
  have hfound := mem_firsts.mp hother
  rw [hid, find?_documentOf hroot hsigil hfree h] at hfound
  exact (Option.some.inj hfound).symm

/-! ### Phrases and the segments that they come from -/

/-- A segment becomes one part, or none if it is a wildcard for nothing. So a phrase can be taken
apart along with its segments, one part at a time. -/
theorem partsOfSegment_eq_nil_or_singleton (grammar : Grammar) (segment : Segment) :
    partsOfSegment grammar segment = [] ∨ ∃ part, partsOfSegment grammar segment = [part] := by
  cases segment with
  | literal text => exact .inr ⟨_, rfl⟩
  | reference id =>
    rw [partsOfSegment]
    split
    · exact .inr ⟨_, rfl⟩
    · exact .inr ⟨_, rfl⟩
  | wildcard wildcard =>
    rw [partsOfSegment]
    cases wildcard.kind.ruleId? with
    | none => exact .inl rfl
    | some id => exact .inr ⟨_, rfl⟩

/-- The first part of a phrase comes from a segment before which there are only segments without a
part. The induction is on the segments, up to the first one that has a part. -/
theorem exists_segment_of_flatMap_eq_cons {segments : List Segment} {part : Part} {rest : Phrase}
    (h : segments.flatMap (partsOfSegment grammar) = part :: rest) :
    ∃ silent segment later, segments = silent ++ segment :: later ∧
      silent.flatMap (partsOfSegment grammar) = [] ∧ partsOfSegment grammar segment = [part] ∧
      later.flatMap (partsOfSegment grammar) = rest := by
  induction segments with
  | nil => cases h
  | cons segment segments ih =>
    rw [List.flatMap_cons] at h
    rcases partsOfSegment_eq_nil_or_singleton grammar segment with hnone | ⟨first, hfirst⟩
    · rw [hnone, List.nil_append] at h
      obtain ⟨silent, next, later, rfl, hsilent, hnext, hlater⟩ := ih h
      refine ⟨segment :: silent, next, later, rfl, ?_, hnext, hlater⟩
      rw [List.flatMap_cons, hnone, hsilent, List.append_nil]
    · rw [hfirst, List.singleton_append] at h
      obtain ⟨rfl, hrest⟩ := List.cons.inj h
      exact ⟨[], segment, segments, rfl, rfl, hfirst, hrest⟩

/-- Segments without a part become tokens without text. They are wildcards for nothing, which may
still have remarks. -/
theorem exists_yields_of_flatMap_eq_nil (entities : Entities) {segments : List Segment}
    (h : segments.flatMap (partsOfSegment grammar) = []) :
    ∃ tokens, Yields grammar entities segments tokens ∧ tokens.flatMap Token.text = [] := by
  induction segments with
  | nil => exact ⟨[], .nil, rfl⟩
  | cons segment segments ih =>
    rw [List.flatMap_cons, List.append_eq_nil_iff] at h
    obtain ⟨tokens, hyields, htext⟩ := ih h.2
    cases segment with
    | literal text => cases h.1
    | reference id =>
      have hparts := h.1
      rw [partsOfSegment] at hparts
      split at hparts <;> cases hparts
    | wildcard wildcard =>
      -- Any other wildcard is a reference in the document, to a list or to a placeholder.
      have hkind : wildcard.kind = .void := by
        rcases wildcard.kind.void_or_other_or_listed with hvoid | ⟨key, hother⟩ | ⟨_, hlisted⟩
        · exact hvoid
        · have hparts := h.1
          simp [partsOfSegment, hother] at hparts
        · have hparts := h.1
          simp [partsOfSegment, Wildcard.Kind.ruleId?_of_collection? hlisted] at hparts
      refine ⟨_, .wildcard (.remark hkind) hyields, ?_⟩
      rw [List.flatMap_append, htext, List.append_nil]
      cases wildcard.metadata <;> rfl

/-- A literal is the one segment that becomes words, where references are defined. A reference to
no rule would become words as well. -/
theorem eq_literal_of_partsOfSegment {segment : Segment} {text : Text}
    (hplain : grammar.PlainSegments [segment])
    (h : partsOfSegment grammar segment = [.words text]) : segment = .literal text := by
  cases segment with
  | literal other =>
    obtain rfl := Part.words.inj (List.singleton_inj.mp h)
    rfl
  | reference id =>
    simp only [partsOfSegment, hplain.defined id List.mem_cons_self, if_true] at h
    cases List.singleton_inj.mp h
  | wildcard wildcard =>
    rw [partsOfSegment] at h
    cases hid : wildcard.kind.ruleId? with
    | none =>
      rw [hid] at h
      cases h
    | some id =>
      rw [hid] at h
      cases List.singleton_inj.mp h

/-- A listed name is the text of a candidate of each plain wildcard that refers to the list. A
wildcard that asks for a part of a collection would not have all of the list as candidates. -/
theorem exists_adds_of_mem_listed (hentities : entities.Built) {wildcard : Wildcard}
    (hkey : wildcard.key ∈ Wildcard.plainKeys) {collection : Collection}
    (hkind : wildcard.kind.collection? = some collection) {name : Text}
    (h : name ∈ listed entities collection) :
    ∃ tokens, entities.Adds wildcard tokens ∧ tokens.flatMap Token.text = name := by
  rw [listed_eq_map_members hentities] at h
  obtain ⟨token, hmem, rfl⟩ := List.mem_map.mp h
  rcases Wildcard.candidates_eq_members hkey with hvoid | ⟨other, hother, hcandidates⟩
  · rw [hvoid] at hkind
    cases hkind
  · obtain rfl : other = collection := Option.some.inj (hother.symm.trans hkind)
    have hoffers : entities.Offers wildcard.kind token := by
      rw [← Entities.mem_candidates, hcandidates]
      exact hmem
    refine ⟨_, .entity hoffers, ?_⟩
    rw [List.flatMap_singleton, text_annotate]

/-! ### The simulation -/

/-- What a segment becomes, and what the segments after it become, all of them become; the
segments without a part before it add no text. -/
theorem exists_yields_append {silent later : List Segment} {segment : Segment} {first rest : Text}
    (hsilent : silent.flatMap (partsOfSegment grammar) = [])
    (hsegment : ∃ tokens, Yields grammar entities [segment] tokens ∧
      tokens.flatMap Token.text = first)
    (hlater : ∃ tokens, Yields grammar entities later tokens ∧
      tokens.flatMap Token.text = rest) :
    ∃ tokens, Yields grammar entities (silent ++ segment :: later) tokens ∧
      tokens.flatMap Token.text = first ++ rest := by
  obtain ⟨before, hbefore, htext⟩ := exists_yields_of_flatMap_eq_nil entities hsilent
  obtain ⟨own, hown, rfl⟩ := hsegment
  obtain ⟨after, hafter, rfl⟩ := hlater
  refine ⟨before ++ (own ++ after), hbefore.append (hown.append hafter), ?_⟩
  rw [List.flatMap_append, List.flatMap_append, htext, List.nil_append]

section Simulation

variable (hentities : entities.Built) (hgrammar : grammar.IsPlain)
  (hroot : grammar.root? = some root)
  (hfree : ∀ rule ∈ grammar.rules, isReservedId (Rule.exportId rule.id) = false)

include hentities hgrammar hroot hfree

/-- What the reference of a wildcard can say, the wildcard can add: the reference means the
list of its collection. -/
theorem exists_yields_wildcard {wildcard : Wildcard} (hkey : wildcard.key ∈ Wildcard.plainKeys)
    {rule : DocumentRule} (mem : rule ∈ (documentOf grammar entities root).firsts.rules)
    (hparts : partsOfSegment grammar (.wildcard wildcard) = [.ruleRef rule.id]) {phrase : Phrase}
    (chosen : phrase ∈ rule.body.choices) {text : Text}
    (h : (documentOf grammar entities root).firsts.Says phrase text) :
    ∃ tokens, Yields grammar entities [.wildcard wildcard] tokens ∧
      tokens.flatMap Token.text = text := by
  rcases Wildcard.candidates_eq_members hkey with hvoid | ⟨collection, hkind, -⟩
  · simp [partsOfSegment, hvoid, Wildcard.Kind.ruleId?] at hparts
  · have hid := Wildcard.Kind.ruleId?_of_collection? hkind
    simp only [partsOfSegment, hid, Option.map_some, Option.toList_some, List.singleton_inj,
      Part.ruleRef.injEq] at hparts
    obtain rfl := eq_of_mem_firsts hroot hgrammar.sigil hfree (.inr ⟨collection, rfl⟩) mem
      hparts.symm
    obtain ⟨name, hname, rfl⟩ := List.mem_map.mp chosen
    obtain ⟨tokens, hadds, htext⟩ := exists_adds_of_mem_listed hentities hkey hkind hname
    -- An item of a list says its name.
    have hsays : text = name := by
      cases h with
      | words after =>
        cases after
        exact List.append_nil name
    refine ⟨tokens ++ [], .wildcard hadds .nil, ?_⟩
    rw [List.append_nil, htext, hsays]

/-- Whatever a phrase can say by first rules, its segments can become, if they are those of a
plain grammar. -/
theorem exists_yields_of_says {phrase : Phrase} {text : Text}
    (h : (documentOf grammar entities root).firsts.Says phrase text) {segments : List Segment}
    (hphrase : segments.flatMap (partsOfSegment grammar) = phrase)
    (hplain : grammar.PlainSegments segments) :
    ∃ tokens, Yields grammar entities segments tokens ∧ tokens.flatMap Token.text = text := by
  induction h generalizing segments with
  | nil => exact exists_yields_of_flatMap_eq_nil entities hphrase
  | words after ih =>
    obtain ⟨silent, segment, later, rfl, hsilent, hsegment, hlater⟩ :=
      exists_segment_of_flatMap_eq_cons hphrase
    have hrest := ih hlater (hplain.of_subset (by simp))
    obtain rfl := eq_literal_of_partsOfSegment (hplain.of_subset (by simp)) hsegment
    refine exists_yields_append hsilent ⟨_, .literal .nil, ?_⟩ hrest
    exact List.append_nil _
  | ruleRef mem chosen inner after ihinner ih =>
    obtain ⟨silent, segment, later, rfl, hsilent, hsegment, hlater⟩ :=
      exists_segment_of_flatMap_eq_cons hphrase
    have hrest := ih hlater (hplain.of_subset (by simp))
    have hsegments : grammar.PlainSegments [segment] := hplain.of_subset (by simp)
    refine exists_yields_append hsilent ?_ hrest
    cases segment with
    | literal text => cases List.singleton_inj.mp hsegment
    | reference id =>
      have hcontains := hsegments.defined id List.mem_cons_self
      obtain ⟨tableRule, hrule⟩ := Grammar.contains_iff_rule?.mp hcontains
      obtain ⟨hmem, hid⟩ := Grammar.rule?_eq_some hrule
      simp only [partsOfSegment, hcontains, if_true, List.singleton_inj, Part.ruleRef.injEq]
        at hsegment
      -- The reference means the rule that the grammar has for it.
      obtain rfl := eq_of_mem_firsts hroot hgrammar.sigil hfree (.inl ⟨tableRule, hmem, rfl⟩) mem
        (by rw [← hsegment, ← hid]; rfl)
      rcases mem_choices_bodyOf chosen with ⟨hempty, rfl⟩ | ⟨template, htemplate, rfl⟩
      · cases inner
        exact ⟨[], .empty hrule hempty .nil, rfl⟩
      · have hreaches := hsegments.reaches id List.mem_cons_self
        obtain ⟨tokens, hyields, htext⟩ :=
          ihinner rfl (hgrammar.plainSegments hreaches hrule htemplate)
        refine ⟨tokens ++ [], .reference hrule htemplate hyields .nil, ?_⟩
        rw [List.append_nil, htext]
    | wildcard wildcard =>
      have hkey := hsegments.keys wildcard List.mem_cons_self
      exact exists_yields_wildcard hentities hgrammar hroot hfree hkey mem hsegment chosen inner

end Simulation

end Documents

/-- The expansion of a plain grammar reaches all that its document allows. Let the datasets
be set one by one, with fewer than `2 ^ 32` entities each, let a machine word count the
replacements of a rule, and let the limit be at least the number of rules. Then each text
that can be derived from the main rule of the document, every reference being followed to
the first rule of its id, is the text of a task on some random words. If no two rules have
the same id, this is each text that can be derived at all. The same holds of the texts that can
be derived from the elements which the events of the document build. -/
theorem canSay_of_derives (grammar : Grammar) (entities : Entities) (limit : Nat)
    (hgrammar : grammar.IsPlain)
    (hcounted : ∀ rule ∈ grammar.rules, rule.replacements.length < UInt64.size)
    (hentities : entities.Built)
    (hsmall : ∀ collection, (entities.members collection).length < UInt32.size)
    (hlimit : grammar.size ≤ limit) {xml : Text} (hconvert : convert grammar entities = .ok xml) :
    ∃ document tree, Document.ofGrammar grammar entities = .ok document ∧
      document.render = xml ∧
      (∀ text, document.firsts.Derives mainId text →
        (Expansion.mk grammar entities limit).CanSay text) ∧
      (document.ruleIds.Nodup → ∀ text, document.Derives mainId text →
        (Expansion.mk grammar entities limit).CanSay text) ∧
      document.BuildsTree tree ∧
      (∀ text, Tree.Derives tree.MeansFirst mainId text →
        (Expansion.mk grammar entities limit).CanSay text) ∧
      (document.ruleIds.Nodup → ∀ text, Tree.Derives tree.Means mainId text →
        (Expansion.mk grammar entities limit).CanSay text) := by
  obtain ⟨document, hdocument, hrender⟩ := convert_eq_ok_iff.mp hconvert
  obtain ⟨root, hroot, hfree, rfl⟩ := ofGrammar_eq_ok_iff.mp hdocument
  have hcontains : grammar.contains Grammar.rootId = true := Grammar.contains_of_rule? hroot
  have hcount : (Expansion.mk grammar entities limit).Countable :=
    ⟨hcounted, Entities.length_candidates_lt (by decide) hsmall⟩
  -- The main rule is what a reference to the root becomes.
  have hmain : [Segment.reference Grammar.rootId].flatMap (partsOfSegment grammar)
      = [.ruleRef mainId] := by
    simp only [List.flatMap_singleton, partsOfSegment, hcontains, if_true]
    rfl
  have hplain : grammar.PlainSegments [.reference Grammar.rootId] := by
    constructor
    · intro id hid
      exact Segment.reference.inj (List.mem_singleton.mp hid) ▸ hcontains
    · intro id hid
      obtain rfl := Segment.reference.inj (List.mem_singleton.mp hid)
      exact Relation.ReflTransGen.refl
    · intro wildcard hmem
      cases List.mem_singleton.mp hmem
  have hfirsts : ∀ text, (documentOf grammar entities root).firsts.Derives mainId text →
      (Expansion.mk grammar entities limit).CanSay text := by
    intro text hderives
    obtain ⟨tokens, hyields, rfl⟩ :=
      exists_yields_of_says hentities hgrammar hroot hfree hderives hmain hplain
    exact Expansion.canSay_of_yields hcount hgrammar.acyclic hlimit hyields
  have hall : (documentOf grammar entities root).ruleIds.Nodup → ∀ text,
      (documentOf grammar entities root).Derives mainId text →
      (Expansion.mk grammar entities limit).CanSay text := fun hnodup text hderives =>
    hfirsts text ((firsts_eq_self hnodup).symm ▸ hderives)
  exact ⟨_, _, hdocument, hrender, hfirsts, hall, Document.buildsTree _,
    fun text hderives => hfirsts text ((derives_tree_iff meansFirst_tree_iff).mp hderives),
    fun hnodup text hderives =>
      hall hnodup text ((derives_tree_iff means_tree_iff).mp hderives)⟩

/-- A grammar with a choice, a rule that is referred to, a name and a remark. -/
def welcome : Grammar :=
  Grammar.ofRules [] .unknown
    [{ id := "$Main".toList,
        replacements := ["$greet, {name}!{void meta: smile}".toList, "bye".toList] },
      { id := "$greet".toList, replacements := ["hello".toList, "hi".toList] }]

/-- Two guests. -/
def guests : Entities :=
  Entities.empty.withNames
    [{ name := "Eve".toList, gender := .female }, { name := "Bob".toList, gender := .male }]

/-- No collection of theirs is too long for a draw. -/
theorem length_members_guests (collection : Collection) :
    (guests.members collection).length < UInt32.size := by
  cases collection <;> decide

/-- The welcome is plain: its references go down, and its wildcards are a name and nothing. -/
theorem isPlain_welcome : welcome.IsPlain where
  sigil := by decide
  acyclic := by
    -- The ids are ranked by hand, the greeting below the root.
    have hdown : ∀ rule ∈ welcome.rules, ∀ next ∈ rule.references,
        ["$greet".toList, "$Main".toList].idxOf next
          < ["$greet".toList, "$Main".toList].idxOf rule.id := by decide +kernel
    exact Grammar.acyclic_of_rank _ hdown
  defined := by
    have hdefined : ∀ rule ∈ welcome.rules, ∀ next ∈ rule.references,
        welcome.contains next = true := by decide +kernel
    rintro id next - ⟨rule, hrule, template, htemplate, hscan⟩
    exact hdefined rule (Grammar.rule?_eq_some hrule).1 next
      (Rule.mem_references.mpr ⟨template, htemplate, hscan⟩)
  keys := by
    have hkeys : ∀ wildcard ∈ welcome.wildcards, wildcard.key ∈ Wildcard.plainKeys := by
      decide +kernel
    intro id rule template wildcard _ hrule htemplate hscan
    exact hkeys wildcard (Grammar.mem_wildcards.mpr
      ⟨rule, (Grammar.rule?_eq_some hrule).1, template, htemplate, hscan⟩)

/-- It says "hi, Bob!", because its document allows this. -/
theorem canSay_of_derives_welcome :
    (Expansion.mk welcome guests 2).CanSay "hi, Bob!".toList := by
  have hroot : welcome.root? = some ⟨Grammar.rootId,
      ["$greet, {name}!{void meta: smile}".toList, "bye".toList]⟩ := rfl
  have hgreet : welcome.rule? "$greet".toList
      = some ⟨"$greet".toList, ["hello".toList, "hi".toList]⟩ := rfl
  obtain ⟨xml, hconvert⟩ : ∃ xml, convert welcome guests = .ok xml := ⟨_, rfl⟩
  obtain ⟨document, tree, hdocument, -, -, hsay, -⟩ := canSay_of_derives welcome guests 2
    isPlain_welcome (by decide) (.withNames _ .empty) length_members_guests (by decide) hconvert
  obtain ⟨root, hroot', -, rfl⟩ := ofGrammar_eq_ok_iff.mp hdocument
  obtain rfl := Option.some.inj (hroot.symm.trans hroot')
  refine hsay ?_ _ ?_
  · rw [ruleIds_eq_map_id]
    decide +kernel
  · -- The parts of its phrases, and what each of them says here.
    have hmain : phraseOf welcome "$greet, {name}!{void meta: smile}".toList
        = [.ruleRef "greet".toList] ++ ([.words ", ".toList] ++
          ([.ruleRef Collection.names.ruleId] ++ [.words "!".toList])) := by decide +kernel
    have hhi : phraseOf welcome "hi".toList = [.words "hi".toList] := by decide +kernel
    have hfirst : (documentOf welcome guests _).Derives "greet".toList "hi".toList :=
      derives_ruleOf hroot hgreet (List.mem_cons_of_mem _ List.mem_cons_self)
        (hhi ▸ .words .nil)
    have hname : (documentOf welcome guests ⟨Grammar.rootId,
        ["$greet, {name}!{void meta: smile}".toList, "bye".toList]⟩).Derives
          Collection.names.ruleId "Bob".toList := derives_listRule (by decide)
    refine derives_ruleOf hroot hroot List.mem_cons_self ?_
    rw [hmain]
    exact hfirst.append (Document.Says.append (.words .nil) (hname.append (.words .nil)))

/-- A grammar that asks for a name, and with a rule that nothing refers to, which has the
word for the names as a key. -/
def spare : Grammar :=
  Grammar.ofRules [] .unknown
    [{ id := "$Main".toList, replacements := ["{name}".toList] },
      { id := "$Spare".toList, replacements := ["{names}".toList] }]

/-- No rule of this grammar refers to another, so it has nothing within reach of the root but the
root. -/
theorem not_refers_spare (id next : Text) : ¬ spare.Refers id next := by
  have hnone : ∀ rule ∈ spare.rules, rule.references = [] := by decide +kernel
  rintro ⟨rule, hrule, template, htemplate, hscan⟩
  have hmem : next ∈ rule.references := Rule.mem_references.mpr ⟨template, htemplate, hscan⟩
  rw [hnone rule (Grammar.rule?_eq_some hrule).1] at hmem
  cases hmem

/-- The template of the root is the wildcard and nothing else. -/
theorem segments_spare :
    Segment.segments "{name}".toList = [.wildcard ⟨"name".toList, [], true⟩] := by
  decide +kernel

/-- The spare rule is out of reach, so its key does not matter. -/
theorem isPlain_spare : spare.IsPlain where
  sigil := by decide
  acyclic := by
    intro id _ hcycle
    obtain ⟨next, href, -⟩ := Relation.TransGen.head'_iff.mp hcycle
    exact not_refers_spare id next href
  defined := by
    intro id next _ href
    exact absurd href (not_refers_spare id next)
  keys := by
    intro id rule template wildcard hreaches hrule htemplate hscan
    rcases Relation.ReflTransGen.cases_head hreaches with rfl | ⟨next, href, -⟩
    · obtain rfl := Option.some.inj (hrule.symm.trans
        (show spare.rule? Grammar.rootId = some ⟨Grammar.rootId, ["{name}".toList]⟩ from rfl))
      rw [List.mem_singleton.mp htemplate, segments_spare] at hscan
      obtain rfl := Segment.wildcard.inj (List.mem_singleton.mp hscan)
      decide
    · exact absurd href (not_refers_spare _ next)

/-- Whatever it becomes is a name, as the root has nothing but the wildcard. The remarks of a
wildcard for nothing would have no text, but this one is for names. -/
theorem text_ne_nil_of_yields_spare {tokens : List Token}
    (h : Yields spare guests [.reference Grammar.rootId] tokens) :
    tokens.flatMap Token.text ≠ [] := by
  have hroot : spare.rule? Grammar.rootId = some ⟨Grammar.rootId, ["{name}".toList]⟩ := rfl
  cases h with
  | undefined undefined _ =>
    rw [hroot] at undefined
    cases undefined
  | empty found empty _ =>
    obtain rfl := Option.some.inj (hroot.symm.trans found)
    cases empty
  | reference found chosen inner _ =>
    obtain rfl := Option.some.inj (hroot.symm.trans found)
    rw [List.mem_singleton.mp chosen, segments_spare] at inner
    cases inner with
    | wildcard added _ =>
      cases added with
      | remark void => exact absurd void (by decide)
      | entity offered =>
        have hoffered : ∀ token ∈ guests.candidates (.name .any), token.text ≠ [] := by decide
        have htoken := hoffered _ (Entities.mem_candidates.mpr offered)
        rw [List.flatMap_append, List.flatMap_append, List.flatMap_singleton, text_annotate]
        exact List.append_ne_nil_of_left_ne_nil (List.append_ne_nil_of_left_ne_nil htoken _) _

/-- The document of its file has a second, empty rule `__names__`. So it allows the empty
text, by its rules and by the elements that are written, and no task has this text. -/
theorem exists_derives_not_canSay :
    ∃ grammar document, Grammar.parse [] "$Main = {name}\n$Spare = {names}".toList = .ok grammar ∧
      grammar.IsPlain ∧ guests.Built ∧
      (∀ collection, (guests.members collection).length < UInt32.size) ∧
      Document.ofGrammar grammar guests = .ok document ∧ document.Derives mainId [] ∧
      (∃ tree, document.BuildsTree tree ∧ Tree.Derives tree.Means mainId []) ∧
      ∀ limit, ¬ (Expansion.mk grammar guests limit).CanSay [] := by
  have hderives : (documentOf spare guests ⟨Grammar.rootId, ["{name}".toList]⟩).Derives
      mainId [] := by
    have hroot : spare.root? = some ⟨Grammar.rootId, ["{name}".toList]⟩ := rfl
    have hphrase : phraseOf spare "{name}".toList = [.ruleRef Collection.names.ruleId] := by
      decide +kernel
    have hplaceholder : (⟨Collection.names.ruleId, .empty⟩ : DocumentRule)
        ∈ (documentOf spare guests ⟨Grammar.rootId, ["{name}".toList]⟩).rules := by
      decide +kernel
    refine derives_ruleOf hroot hroot List.mem_cons_self ?_
    rw [hphrase]
    exact Document.Says.nil.derives hplaceholder List.mem_cons_self
  refine ⟨spare, _, rfl, isPlain_spare, .withNames _ .empty, length_members_guests, rfl, hderives,
    ⟨_, Document.buildsTree _, (derives_tree_iff means_tree_iff).mpr hderives⟩, ?_⟩
  -- No limit and no random words help: all that the root becomes is a name.
  rintro limit ⟨words, task, hok, htext⟩
  have hyields := (Expansion.task_satisfies (Expansion.mk spare guests limit)
    Random.respects_any).result_of_ok trivial hok
  exact text_ne_nil_of_yields_spare hyields htext

end Speech

end TaskGrammar
