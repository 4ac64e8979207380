import TaskGrammar.Proofs.Text.Positions
import TaskGrammar.Template.Wildcard

/-!
# `TaskGrammar.Proofs.Template.Keys`: the rules that wildcards stand for

A known key leads to the rule of a collection, an unknown one to a placeholder whose id is
made from the key. Both have the shape `__word__`.

* `Kind.mem_keywords_of_ofKey` / `Kind.ofKey_eq_other_iff`: which keys are known, and which are
  not.
* `Kind.void_or_other_or_listed`: the three things that a wildcard may lead to.
* `placeholderId_inj`: different keys have different placeholders.
* `Collection.ruleId_eq_placeholderId`: the id of a list is that of a placeholder, for a
  key that is no keyword (`Collection.lookup_word`).
* `isReservedId_placeholderId` / `isReservedId_iff`: the shape is kept for generated rules, but
  for the empty key.
-/

set_option autoImplicit false

namespace TaskGrammar

namespace Wildcard

/-- The id of the placeholder for an unknown key. -/
def placeholderId (key : Text) : Text :=
  "__".toList ++ key ++ "__".toList

/-- An unknown key leads to its placeholder. -/
@[simp]
theorem Kind.ruleId?_other (key : Text) : (other key).ruleId? = some (placeholderId key) :=
  rfl

/-- What is drawn from a collection leads to its list. -/
theorem Kind.ruleId?_of_collection? {kind : Kind} {collection : Collection}
    (h : kind.collection? = some collection) : kind.ruleId? = some collection.ruleId := by
  cases kind with
  | void => cases h
  | other key => cases h
  | _ => exact congrArg (Option.map Collection.ruleId) h

/-- A wildcard stands for nothing, for something unknown, or for an entity of a list. Most of what
is said of kinds has these three cases and no more. -/
theorem Kind.void_or_other_or_listed (kind : Kind) :
    kind = .void ∨ (∃ key, kind = .other key) ∨
      ∃ collection, kind.collection? = some collection := by
  cases kind with
  | void => exact .inl rfl
  | other key => exact .inr (.inl ⟨key, rfl⟩)
  | _ => exact .inr (.inr ⟨_, rfl⟩)

/-- A key has only one placeholder. -/
theorem placeholderId_inj {key key' : Text} :
    placeholderId key = placeholderId key' ↔ key = key' := by
  unfold placeholderId
  rw [List.append_left_inj, List.append_right_inj]

/-- A key with a meaning of its own is in the table, with its kind. -/
theorem Kind.mem_keywords_of_lookup {key : Text} {kind : Kind}
    (h : keywords.lookup key = some kind) : (key, kind) ∈ keywords := by
  obtain ⟨before, after, hkeywords, -⟩ := List.lookup_eq_some_iff.mp h
  rw [hkeywords]
  simp

/-- No entry of the table is of an unknown kind. -/
theorem Kind.ne_other_of_mem_keywords {key : Text} {kind : Kind} (h : (key, kind) ∈ keywords)
    (other : Text) : kind ≠ .other other := by
  rintro rfl
  simp [keywords] at h

/-- Only a key without a meaning of its own makes a wildcard of an unknown kind. The kind keeps
the key as it is, for the message and for the placeholder. -/
theorem Kind.ofKey_eq_other_iff {key other : Text} :
    ofKey key = .other other ↔ keywords.lookup key = none ∧ key = other := by
  unfold ofKey
  cases hlookup : keywords.lookup key with
  | none => simp
  | some kind =>
    have hknown := Kind.ne_other_of_mem_keywords (Kind.mem_keywords_of_lookup hlookup) other
    simp only [Option.getD_some, reduceCtorEq, false_and, iff_false]
    exact hknown

/-- A kind other than the unknown ones comes from the table. So a statement on all keys with a
meaning can be checked entry by entry. -/
theorem Kind.mem_keywords_of_ofKey {key : Text} {kind : Kind} (h : ofKey key = kind)
    (hkind : ∀ other, kind ≠ .other other) : (key, kind) ∈ keywords := by
  cases hlookup : keywords.lookup key with
  | none => exact absurd (h.symm.trans (Kind.ofKey_eq_other_iff.mpr ⟨hlookup, rfl⟩)) (hkind key)
  | some found =>
    unfold ofKey at h
    rw [hlookup, Option.getD_some] at h
    exact h ▸ Kind.mem_keywords_of_lookup hlookup

/-- One key stands for nothing. -/
theorem Kind.ofKey_eq_void_iff {key : Text} : ofKey key = .void ↔ key = "void".toList := by
  constructor
  · intro h
    -- Of the entries of the table only the last one has this kind.
    have hmem := Kind.mem_keywords_of_ofKey h nofun
    simpa [keywords] using hmem
  · rintro rfl
    rfl

end Wildcard

/-- The word between the underscores of a list's id. -/
def Collection.word : Collection → Text
  | .gestures => "gestures".toList
  | .names => "names".toList
  | .locations => "locations".toList
  | .objects => "objects".toList
  | .categories => "categories".toList
  | .questions => "questions".toList

/-- The id of a list has the shape of a placeholder's. -/
theorem Collection.ruleId_eq_placeholderId (collection : Collection) :
    collection.ruleId = Wildcard.placeholderId collection.word := by
  cases collection <;> rfl

/-- No word for a list is a key with a meaning of its own. Such a word as a key is thus one of the
unknown ones, though its placeholder is the id of the list. -/
theorem Collection.lookup_word (collection : Collection) :
    Wildcard.keywords.lookup collection.word = none := by
  cases collection <;> decide

/-- The placeholder of any key but the empty one has the shape that is reserved: only its
four underscores alone are too short. -/
theorem isReservedId_placeholderId {key : Text} (h : key ≠ []) :
    isReservedId (Wildcard.placeholderId key) = true := by
  obtain ⟨c, rest, rfl⟩ := List.exists_cons_of_ne_nil h
  have hlength : 4 < Text.utf8Length (Wildcard.placeholderId (c :: rest)) := by
    have hdash : Text.utf8Length "__".toList = 2 := by decide
    have hpos := Char.utf8Size_pos c
    unfold Wildcard.placeholderId
    rw [Text.utf8Length_append, Text.utf8Length_append, hdash, Text.utf8Length]
    omega
  unfold isReservedId
  rw [Bool.and_eq_true, Bool.and_eq_true, decide_eq_true_iff, List.isPrefixOf_iff_prefix,
    List.isSuffixOf_iff_suffix]
  refine ⟨⟨hlength, ?_⟩, ?_⟩
  · unfold Wildcard.placeholderId
    rw [List.append_assoc]
    exact List.prefix_append _ _
  · exact List.suffix_append _ _

/-- The reserved shape is that of the placeholders, but for the one of the empty key. -/
theorem isReservedId_iff {id : Text} :
    isReservedId id = true ↔ ∃ key, key ≠ [] ∧ id = Wildcard.placeholderId key := by
  constructor
  · intro h
    unfold isReservedId at h
    rw [Bool.and_eq_true, Bool.and_eq_true, decide_eq_true_iff, List.isPrefixOf_iff_prefix,
      List.isSuffixOf_iff_suffix] at h
    obtain ⟨⟨hlength, t, rfl⟩, hsuffix⟩ := h
    have hdash : Text.utf8Length "__".toList = 2 := by decide
    rw [Text.utf8Length_append, hdash] at hlength
    -- The underscores at the end are behind those at the start: otherwise there are too few bytes.
    rcases List.suffix_or_suffix_of_suffix hsuffix (List.suffix_append _ t) with
      ⟨key, rfl⟩ | ⟨before, hbefore⟩
    · refine ⟨key, ?_, (List.append_assoc _ _ _).symm⟩
      rintro rfl
      rw [List.nil_append, hdash] at hlength
      omega
    · rw [← hbefore, Text.utf8Length_append] at hdash
      omega
  · rintro ⟨key, hkey, rfl⟩
    exact isReservedId_placeholderId hkey

end TaskGrammar
