import TaskGrammar.Proofs.Speech.Derivation
import TaskGrammar.Proofs.Template.Keys

/-!
# `TaskGrammar.Proofs.Speech.Wildcards`: one wildcard, read twice

A wildcard is read by two programs. The expansion draws an entity for it, the conversion
makes it a reference to a rule of the document. `Wildcard.DrawsFrom` says which collection
the expansion draws from without a look at the key: by what an expansion of the wildcard
can end in, over all datasets and all random sources. This file compares the two readings,
for every key.

* `Wildcard.drawsFrom_iff`: the expansion draws from the collection of the wildcard's kind,
  and from no other. `Entities.sampler` tells the collections apart.
* `Wildcard.void_or_unknown_or_drawsFrom`: the three things that a wildcard can be.
* `wildcard_readings_agree`: the conversion refers to a list exactly if the expansion draws
  from its collection, or the key is the word between the underscores of the list's id.
* `names_readings_differ`: the latter happens, and nothing is drawn then.
-/

set_option autoImplicit false

namespace TaskGrammar

/-! ### The members of a collection -/

/-- The tokens of all entities of a collection, in order. -/
def Entities.members (entities : Entities) : Collection → List Token
  | .gestures => entities.gestures.items.map Entity.token
  | .names => entities.names.items.map Entity.token
  | .locations => entities.locations.items.map Entity.token
  | .objects => entities.objects.items.map Entity.token
  | .categories => entities.categories.items.map Entity.token
  | .questions => entities.questions.items.map Entity.token

/-- What a kind of wildcard may stand for is a member of its collection: filters only
leave members out. -/
theorem Entities.Offers.mem_members {entities : Entities} {kind : Wildcard.Kind} {token : Token}
    (h : entities.Offers kind token) {collection : Collection}
    (hkind : kind.collection? = some collection) : token ∈ entities.members collection := by
  cases kind with
  | category | gesture | question =>
    obtain rfl := Option.some.inj hkind
    obtain ⟨entity, hmem, rfl⟩ := h
    exact List.mem_map_of_mem hmem
  | name filter | location filter | object filter =>
    obtain rfl := Option.some.inj hkind
    obtain ⟨entity, hmem, -, rfl⟩ := h
    exact List.mem_map_of_mem hmem
  | void | other key => cases hkind

/-- A document lists a collection by the texts of its members. So the document and the expansion
speak of the same names, although they come to them on different ways. -/
theorem Speech.listed_eq_map_members {entities : Entities} (hentities : entities.Built)
    (collection : Collection) :
    listed entities collection = (entities.members collection).map Token.text := by
  cases collection with
  | categories =>
    -- The one list that is computed anew, from the objects.
    rw [listed_categories hentities]
    show entities.categories.names = (entities.categories.items.map Entity.token).map Token.text
    rw [List.map_map]
    rfl
  | _ =>
    simp only [Entities.members, List.map_map]
    rfl

/-- Datasets in which every entity bears the word for its collection, with one that passes
each filter. -/
def Entities.sampler : Entities :=
  let category := Category.mk Collection.categories.word [] []
  ((((Entities.empty.withGestures [⟨Collection.gestures.word, .unknown⟩]).withNames
    [⟨Collection.names.word, .female⟩, ⟨Collection.names.word, .male⟩]).withLocations
    [.ofRoom Collection.locations.word, .inside Collection.locations.word [] true true]).withObjects
    [⟨Collection.objects.word, .known, category⟩, ⟨Collection.objects.word, .alike, category⟩]
    ).withQuestions [⟨Collection.questions.word, []⟩]

/-- A sample shows which collection it is from. -/
theorem Entities.text_of_mem_sampler {collection : Collection} {token : Token}
    (h : token ∈ sampler.members collection) : token.text = collection.word := by
  have hall : ∀ token ∈ sampler.members collection, token.text = collection.word := by
    cases collection <;> decide
  exact hall token h

/-- Every filter lets a sample pass. -/
theorem Entities.exists_sampler_offers {kind : Wildcard.Kind} {collection : Collection}
    (hkind : kind.collection? = some collection) : ∃ token, sampler.Offers kind token := by
  simp only [← mem_candidates]
  refine List.exists_mem_of_ne_nil _ ?_
  cases kind with
  | name filter | location filter | object filter => cases filter <;> decide
  | category | gesture | question => decide
  | void | other key => cases hkind

/-- No two collections have the same word. -/
theorem Collection.word_inj {collection collection' : Collection}
    (h : collection.word = collection'.word) : collection = collection' := by
  revert h
  cases collection <;> cases collection' <;> decide

namespace Wildcard

/-! ### What an expansion draws from -/

/-- The expansion draws the wildcard from a collection. Whatever the datasets and the
random source, a success adds a member of the collection and nothing else, and some
expansion of the wildcard succeeds. -/
structure DrawsFrom (wildcard : Wildcard) (collection : Collection) : Prop where
  adds : ∀ {σ : Type} [RandomSource σ] (entities : Entities) (source : σ) (tokens : List Token),
    ((Expansion.expandWildcard entities wildcard : Draw σ (List Token)).outcome source).1
        = .ok tokens →
      ∃ token ∈ entities.members collection, tokens = [token.annotate wildcard.metadata]
  succeeds : ∃ (entities : Entities) (source : Script) (tokens : List Token),
    ((Expansion.expandWildcard entities wildcard : Draw Script (List Token)).outcome source).1
      = .ok tokens

/-- The wildcard for nothing adds tokens without text and leaves the source as it is. It never
fails, whatever the datasets are. -/
theorem expandWildcard_of_void {σ : Type} [RandomSource σ] {wildcard : Wildcard}
    (hkind : wildcard.kind = .void) (entities : Entities) (source : σ) :
    ∃ tokens, (Expansion.expandWildcard entities wildcard : Draw σ (List Token)).outcome source
      = (.ok tokens, source) ∧ tokens.flatMap Token.text = [] := by
  refine ⟨(wildcard.metadata.map fun remark => { text := [], metadata := [remark] }).toList,
    ?_, ?_⟩
  · unfold Expansion.expandWildcard
    rw [hkind]
    rfl
  · cases wildcard.metadata <;> rfl

/-- A wildcard of an unknown key always fails, and without a draw. -/
theorem expandWildcard_of_other {σ : Type} [RandomSource σ] {wildcard : Wildcard} {key : Text}
    (hkind : wildcard.kind = .other key) (entities : Entities) (source : σ) :
    (Expansion.expandWildcard entities wildcard : Draw σ (List Token)).outcome source
      = (.error (.noCandidates wildcard.key), source) := by
  unfold Expansion.expandWildcard
  rw [hkind]
  rfl

/-- A wildcard of a kind that has entities adds one of the collection, if it does not fail. Of the
draws it matters only that they choose from the candidates. -/
theorem exists_mem_members_of_ok {σ : Type} [RandomSource σ] {wildcard : Wildcard}
    {collection : Collection} (hkind : wildcard.kind.collection? = some collection)
    {entities : Entities} {source : σ} {tokens : List Token}
    (hok : ((Expansion.expandWildcard entities wildcard : Draw σ (List Token)).outcome source).1
      = .ok tokens) :
    ∃ token ∈ entities.members collection, tokens = [token.annotate wildcard.metadata] := by
  have hdraws : Random.Respects (fun _ => True) (fun _ : σ => True) (· = .endlessDraw) :=
    Random.respects_any
  have hadds := (Expansion.expandWildcard_satisfies hdraws entities wildcard
    fun _ _ => trivial).result_of_ok trivial hok
  cases hadds with
  | remark void =>
    rw [void] at hkind
    cases hkind
  | entity offered => exact ⟨_, offered.mem_members hkind, rfl⟩

/-- From the samples and the source of zeros it does not fail. Each filter lets some sample pass,
and a draw that is offered zeros comes to an end. -/
theorem exists_ok_sampler {wildcard : Wildcard} {collection : Collection}
    (hkind : wildcard.kind.collection? = some collection) :
    ∃ tokens, ((Expansion.expandWildcard .sampler wildcard : Draw Script (List Token)).outcome
      (Script.ofWords [0])).1 = .ok tokens := by
  obtain ⟨inv, hdraws, hsource⟩ := Script.drawsEnd_zero fun _ => True
  obtain ⟨token, htoken⟩ := Entities.exists_sampler_offers hkind
  have h := Expansion.expandWildcard_satisfies hdraws .sampler wildcard fun _ _ => trivial
  refine (h.mono_fault fun fault hfault => ?_).exists_ok hsource
  rcases hfault with hfault | ⟨-, -, hnone⟩
  · exact hfault
  · exact hnone token htoken

/-- The expansion draws from the collection of the wildcard's kind and from no other. `DrawsFrom`
is about what an expansion does with any datasets, so each of the other kinds is ruled out by
datasets that show it. -/
theorem drawsFrom_iff {wildcard : Wildcard} {collection : Collection} :
    wildcard.DrawsFrom collection ↔ wildcard.kind.collection? = some collection := by
  constructor
  · intro h
    rcases Kind.void_or_other_or_listed wildcard.kind with hkind | ⟨key, hkind⟩ | ⟨other, hkind⟩
    · -- Nothing is a member of empty datasets, but the wildcard for nothing succeeds there.
      obtain ⟨tokens, hrun, -⟩ := expandWildcard_of_void hkind .empty (Script.ofWords [0])
      obtain ⟨token, hmem, -⟩ := h.adds .empty (Script.ofWords [0]) tokens (by rw [hrun])
      have hempty : Entities.empty.members collection = [] := by
        cases collection <;> rfl
      rw [hempty] at hmem
      cases hmem
    · -- A wildcard of an unknown key never succeeds.
      obtain ⟨entities, source, tokens, hok⟩ := h.succeeds
      rw [expandWildcard_of_other hkind] at hok
      cases hok
    · -- The samples of two collections have different texts.
      obtain ⟨tokens, hok⟩ := exists_ok_sampler hkind
      obtain ⟨token, hmem, rfl⟩ := exists_mem_members_of_ok hkind hok
      obtain ⟨token', hmem', heq⟩ := h.adds .sampler _ _ hok
      have hword : other.word = collection.word := by
        rw [← Entities.text_of_mem_sampler hmem, ← Entities.text_of_mem_sampler hmem',
          ← Speech.text_annotate token wildcard.metadata,
          ← Speech.text_annotate token' wildcard.metadata, List.singleton_inj.mp heq]
      rw [hkind, Collection.word_inj hword]
  · intro hkind
    obtain ⟨tokens, hok⟩ := exists_ok_sampler hkind
    exact ⟨fun _ _ _ hok => exists_mem_members_of_ok hkind hok, _, _, tokens, hok⟩

/-- A wildcard stands for nothing, or its key is unknown, or there is a collection that it
is drawn from. -/
theorem void_or_unknown_or_drawsFrom (wildcard : Wildcard) :
    wildcard.key = "void".toList ∨ keywords.lookup wildcard.key = none ∨
      ∃ collection, wildcard.DrawsFrom collection := by
  rcases Kind.void_or_other_or_listed wildcard.kind with hkind | ⟨key, hkind⟩ | ⟨collection, hkind⟩
  · exact .inl (Kind.ofKey_eq_void_iff.mp hkind)
  · exact .inr (.inl (Kind.ofKey_eq_other_iff.mp hkind).1)
  · exact .inr (.inr ⟨collection, drawsFrom_iff.mpr hkind⟩)

end Wildcard

namespace Speech

/-! ### What a document refers to -/

/-- A wildcard that stands for nothing is written as nothing. -/
theorem partsOfSegment_of_void {wildcard : Wildcard} (hkey : wildcard.key = "void".toList)
    (grammar : Grammar) : partsOfSegment grammar (.wildcard wildcard) = [] := by
  have hkind : wildcard.kind = .void := Wildcard.Kind.ofKey_eq_void_iff.mpr hkey
  simp only [partsOfSegment, hkind, Wildcard.Kind.ruleId?, Option.map_none, Option.toList_none]

/-- A wildcard of an unknown key refers to its placeholder. -/
theorem partsOfSegment_of_unknown {wildcard : Wildcard}
    (hkey : Wildcard.keywords.lookup wildcard.key = none) (grammar : Grammar) :
    partsOfSegment grammar (.wildcard wildcard)
      = [.ruleRef (Wildcard.placeholderId wildcard.key)] := by
  have hkind : wildcard.kind = .other wildcard.key :=
    Wildcard.Kind.ofKey_eq_other_iff.mpr ⟨hkey, rfl⟩
  simp only [partsOfSegment, hkind, Wildcard.Kind.ruleId?_other, Option.map_some,
    Option.toList_some]

/-- A wildcard that is drawn from a collection refers to its list. -/
theorem partsOfSegment_of_drawsFrom {wildcard : Wildcard} {collection : Collection}
    (h : wildcard.DrawsFrom collection) (grammar : Grammar) :
    partsOfSegment grammar (.wildcard wildcard) = [.ruleRef collection.ruleId] := by
  have hid := Wildcard.Kind.ruleId?_of_collection? (Wildcard.drawsFrom_iff.mp h)
  simp only [partsOfSegment, hid, Option.map_some, Option.toList_some]

/-- The placeholder of a key has the id of a list exactly if the key is the word of the
collection. Here the two kinds of wildcards meet that should not. -/
theorem ruleId_eq_placeholderId_iff {collection : Collection} {key : Text} :
    collection.ruleId = Wildcard.placeholderId key ↔ key = collection.word := by
  rw [collection.ruleId_eq_placeholderId, Wildcard.placeholderId_inj]
  exact eq_comm

/-- A word of a collection is an unknown key, so nothing is drawn for it. -/
theorem key_ne_word_of_drawsFrom {wildcard : Wildcard} {collection : Collection}
    (h : wildcard.DrawsFrom collection) (other : Collection) : wildcard.key ≠ other.word := by
  intro hword
  have hkind : wildcard.kind = .other wildcard.key :=
    Wildcard.Kind.ofKey_eq_other_iff.mpr ⟨hword ▸ other.lookup_word, rfl⟩
  have hdrawn := Wildcard.drawsFrom_iff.mp h
  rw [hkind] at hdrawn
  cases hdrawn

/-- The wildcards that refer to the list of a collection: those that are drawn from it, and
those whose key is its word. -/
theorem partsOfSegment_eq_ruleId_iff {wildcard : Wildcard} {grammar : Grammar}
    {collection : Collection} :
    partsOfSegment grammar (.wildcard wildcard) = [.ruleRef collection.ruleId] ↔
      wildcard.DrawsFrom collection ∨ wildcard.key = collection.word := by
  rcases wildcard.void_or_unknown_or_drawsFrom with hkey | hkey | ⟨other, hdraws⟩
  · -- Nothing is referred to, nothing drawn, and `void` is no word of a collection.
    have hkind := Wildcard.Kind.ofKey_eq_void_iff.mpr hkey
    rw [partsOfSegment_of_void hkey, Wildcard.drawsFrom_iff, Wildcard.kind, hkind, hkey]
    cases collection <;> decide
  · have hkind : wildcard.kind = .other wildcard.key :=
      Wildcard.Kind.ofKey_eq_other_iff.mpr ⟨hkey, rfl⟩
    have hdraws : ¬ wildcard.DrawsFrom collection := by
      rw [Wildcard.drawsFrom_iff, hkind]
      exact nofun
    rw [partsOfSegment_of_unknown hkey, List.singleton_inj, Part.ruleRef.injEq, eq_comm,
      ruleId_eq_placeholderId_iff]
    simp [hdraws]
  · have hsame : other.ruleId = collection.ruleId ↔ other = collection := by
      rw [collection.ruleId_eq_placeholderId, ruleId_eq_placeholderId_iff]
      exact ⟨fun h => Collection.word_inj h.symm, fun h => h ▸ rfl⟩
    rw [partsOfSegment_of_drawsFrom hdraws, List.singleton_inj, Part.ruleRef.injEq, hsame,
      Wildcard.drawsFrom_iff, Wildcard.drawsFrom_iff.mp hdraws, Option.some.injEq]
    simp [key_ne_word_of_drawsFrom hdraws collection]

/-- The two readings of a wildcard, for every key.

* The conversion refers to the list of a collection exactly if the expansion draws the
  wildcard from this collection, or its key is the word of the collection.
* The wildcard for nothing is no part of the document, has no placeholder, and draws
  nothing: the source stays as it is and no text is added.
* On every other key that is drawn from no collection the expansion always fails, and the
  conversion refers to the placeholder of the key. No list has this id, unless the key is
  the word of its collection. -/
theorem wildcard_readings_agree (wildcard : Wildcard) (grammar : Grammar) (entities : Entities) :
    (∀ collection : Collection,
      partsOfSegment grammar (.wildcard wildcard) = [.ruleRef (listRule entities collection).id] ↔
        wildcard.DrawsFrom collection ∨ wildcard.key = collection.word) ∧
    (wildcard.key = "void".toList →
      partsOfSegment grammar (.wildcard wildcard) = [] ∧
        placeholder? (.wildcard wildcard) = none ∧
        ∀ {σ : Type} [RandomSource σ] (source : σ), ∃ tokens,
          (Expansion.expandWildcard entities wildcard : Draw σ (List Token)).outcome source
            = (.ok tokens, source) ∧ tokens.flatMap Token.text = []) ∧
    (wildcard.key ≠ "void".toList → (∀ collection, ¬ wildcard.DrawsFrom collection) →
      (∀ {σ : Type} [RandomSource σ] (source : σ),
        (Expansion.expandWildcard entities wildcard : Draw σ (List Token)).outcome source
          = (.error (.noCandidates wildcard.key), source)) ∧
      ∃ id, partsOfSegment grammar (.wildcard wildcard) = [.ruleRef id] ∧
        ∀ collection : Collection,
          (listRule entities collection).id = id ↔ wildcard.key = collection.word) := by
  have hlist : ∀ collection : Collection,
      (listRule entities collection).id = collection.ruleId := fun _ => rfl
  simp only [hlist]
  refine ⟨fun collection => partsOfSegment_eq_ruleId_iff, fun hkey => ?_, fun hkey hnone => ?_⟩
  · have hkind : wildcard.kind = .void := Wildcard.Kind.ofKey_eq_void_iff.mpr hkey
    refine ⟨partsOfSegment_of_void hkey grammar, ?_, fun source => ?_⟩
    · simp only [placeholder?, hkind]
    · exact Wildcard.expandWildcard_of_void hkind entities source
  · -- It is neither the wildcard for nothing nor one that is drawn.
    have hunknown : Wildcard.keywords.lookup wildcard.key = none := by
      rcases wildcard.void_or_unknown_or_drawsFrom with hvoid | hunknown | ⟨collection, hdraws⟩
      · exact absurd hvoid hkey
      · exact hunknown
      · exact absurd hdraws (hnone collection)
    have hkind := Wildcard.Kind.ofKey_eq_other_iff.mpr ⟨hunknown, rfl⟩
    refine ⟨Wildcard.expandWildcard_of_other hkind entities, _,
      partsOfSegment_of_unknown hunknown grammar, fun collection => ?_⟩
    exact ruleId_eq_placeholderId_iff

/-- An unknown key: the expansion fails, and the document has no list of the id that the
conversion refers to. -/
theorem wildcard_readings_agree_pron :
    ((Expansion.expandWildcard .sampler ⟨"pron".toList, [], true⟩ :
      Draw Script (List Token)).outcome (Script.ofWords [0])).1
        = .error (.noCandidates "pron".toList) ∧
    ∃ id, partsOfSegment (.empty [] .unknown) (.wildcard ⟨"pron".toList, [], true⟩)
        = [.ruleRef id] ∧
      ∀ collection, (listRule .sampler collection).id ≠ id := by
  have hnone : ∀ collection, ¬ (Wildcard.mk "pron".toList [] true).DrawsFrom collection := by
    intro collection
    rw [Wildcard.drawsFrom_iff]
    cases collection <;> decide
  obtain ⟨-, -, hother⟩ :=
    wildcard_readings_agree ⟨"pron".toList, [], true⟩ (.empty [] .unknown) .sampler
  obtain ⟨hfails, id, hparts, hlists⟩ := hother (by decide) hnone
  refine ⟨by rw [hfails], id, hparts, fun collection hid => ?_⟩
  have hkey := (hlists collection).mp hid
  revert hkey
  cases collection <;> decide

/-- The wildcard of the template `{names}`: its reference names the list of the names,
and the expansion does not draw it from the names, or from anything else. -/
theorem names_readings_differ :
    ∃ wildcard, Segment.segments "{names}".toList = [.wildcard wildcard] ∧
      (∀ grammar entities, partsOfSegment grammar (.wildcard wildcard)
        = [.ruleRef (listRule entities .names).id]) ∧
      ∀ collection, ¬ wildcard.DrawsFrom collection := by
  refine ⟨⟨"names".toList, [], true⟩, by decide +kernel, fun _ _ => rfl, fun collection => ?_⟩
  rw [Wildcard.drawsFrom_iff]
  cases collection <;> decide

end Speech

end TaskGrammar
