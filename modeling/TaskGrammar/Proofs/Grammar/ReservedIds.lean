import TaskGrammar.Grammar.Source
import TaskGrammar.Proofs.Grammar.Table
import TaskGrammar.Proofs.Template.Boundaries
import TaskGrammar.Proofs.Template.Keys

/-!
# `TaskGrammar.Proofs.Grammar.ReservedIds`: the ids that are kept for wildcards

A document has a rule for each wildcard, and the ids of these rules are kept from the rules of the
grammar. What is kept is a shape, `__key__` with something for a key. The scanner makes a key of the
letters behind a brace, and there may be none. So the shape misses one id, the `____` of a wildcard
without a key.

* `Wildcard.ruleId?_eq_some`: a rule that stands for a wildcard has an id with two underscores at
  each end, and nothing between them only if the key is empty.
* `isReservedId_ruleId?_iff`: the id is kept from the rules of a grammar if the wildcard has a key.
  Without one it is not, and a grammar that passes the check may have a rule of this id.
-/

set_option autoImplicit false

namespace TaskGrammar

/-- A wildcard that stands for something has the placeholder of some word. The word is empty only if
there is no key. -/
theorem Wildcard.ruleId?_eq_some {wildcard : Wildcard} {id : Text}
    (h : wildcard.kind.ruleId? = some id) :
    ∃ word, id = placeholderId word ∧ (word = [] ↔ wildcard.key = []) := by
  rcases wildcard.kind.void_or_other_or_listed with hvoid | ⟨key, hother⟩ | ⟨collection, hlisted⟩
  · rw [hvoid] at h
    cases h
  · rw [hother, Kind.ruleId?_other, Option.some.injEq] at h
    exact ⟨key, h.symm, by rw [(Kind.ofKey_eq_other_iff.mp hother).2]⟩
  · rw [Kind.ruleId?_of_collection? hlisted, Option.some.injEq] at h
    refine ⟨collection.word, h ▸ collection.ruleId_eq_placeholderId, ?_⟩
    have hword : collection.word ≠ [] := by
      cases collection <;> decide
    have hkey : wildcard.key ≠ [] := by
      intro hnil
      -- The empty key is unknown, and an unknown key is drawn from no collection.
      have hunknown : wildcard.kind = .other [] := by
        rw [Wildcard.kind, hnil]
        rfl
      rw [hunknown] at hlisted
      cases hlisted
    simp [hword, hkey]

/-- One kind of wildcard has no rule: the one that stands for nothing. Nothing is said for it, so
there is nothing to refer to. -/
theorem Wildcard.ruleId?_eq_none_iff {wildcard : Wildcard} :
    wildcard.kind.ruleId? = none ↔ wildcard.key = "void".toList := by
  rw [← Kind.ofKey_eq_void_iff, ← Wildcard.kind]
  rcases wildcard.kind.void_or_other_or_listed with hvoid | ⟨key, hother⟩ | ⟨collection, hlisted⟩
  · simp [hvoid, Kind.ruleId?]
  · simp [hother]
  · rw [Kind.ruleId?_of_collection? hlisted]
    refine iff_of_false nofun fun hvoid => ?_
    rw [hvoid] at hlisted
    cases hlisted

namespace Grammar

/-- A grammar whose ids pass the check, with a rule that is exported as `____`. -/
def underscored : Grammar :=
  Grammar.ofRules [] .unknown
    [{ id := "$Main".toList, replacements := ["{}".toList] },
      { id := "$____".toList, replacements := ["please".toList] }]

/-- The check of the ids lets pass an id of four underscores, and no other placeholder. Between
the underscores of all others there is a word, by which they are recognised. -/
theorem exists_exportable_iff {word : Text} :
    (∃ grammar : Grammar, grammar.checkExportable = .ok () ∧
      ∃ rule ∈ grammar.rules, Rule.exportId rule.id = Wildcard.placeholderId word) ↔ word = [] := by
  constructor
  · rintro ⟨grammar, hcheck, rule, hrule, hid⟩
    by_contra hword
    have hreserved := isReservedId_placeholderId hword
    rw [← hid, checkExportable_eq_ok_iff.mp hcheck rule hrule] at hreserved
    cases hreserved
  · rintro rfl
    exact ⟨underscored, rfl, ⟨"$____".toList, ["please".toList]⟩, by decide, rfl⟩

end Grammar

/-- The ids of the rules that stand for the wildcards of a template. The key of such a wildcard is
made of letters. For the key `void` there is no rule. Every other id is reserved exactly if the key
is not empty, and then no rule of a grammar that passes the check is exported under it. Without a
key it can be: the check lets a rule of that id pass. -/
theorem isReservedId_ruleId?_iff (template : Text) (wildcard : Wildcard)
    (h : .wildcard wildcard ∈ Segment.segments template) :
    wildcard.key.all Text.isLetter = true ∧
    (wildcard.kind.ruleId? = none ↔ wildcard.key = "void".toList) ∧
    ∀ id, wildcard.kind.ruleId? = some id →
      (isReservedId id = true ↔ wildcard.key ≠ []) ∧
      ((∃ grammar : Grammar, grammar.checkExportable = .ok () ∧
        ∃ rule ∈ grammar.rules, Rule.exportId rule.id = id) ↔ wildcard.key = []) := by
  have hcanonical : wildcard.Canonical := Segment.isCanonical_of_mem_segments template h
  refine ⟨hcanonical.letters, Wildcard.ruleId?_eq_none_iff, fun id hid => ?_⟩
  obtain ⟨word, rfl, hword⟩ := Wildcard.ruleId?_eq_some hid
  refine ⟨?_, ?_⟩
  · rw [isReservedId_iff, ne_eq, ← hword]
    constructor
    · rintro ⟨key, hkey, heq⟩
      rwa [Wildcard.placeholderId_inj.mp heq]
    · intro hne
      exact ⟨word, hne, rfl⟩
  · rw [Grammar.exists_exportable_iff, hword]

/-- A key between a wide blank and a brace: the id is reserved, and no grammar that passes the check
has a rule for it. -/
theorem isReservedId_ruleId?_pron :
    .wildcard ⟨"pron".toList, "{1}".toList, true⟩ ∈ Segment.segments "To \x7b　pron{1}\x7d.".toList ∧
    isReservedId "__pron__".toList = true ∧
    ∀ grammar : Grammar, grammar.checkExportable = .ok () →
      ∀ rule ∈ grammar.rules, Rule.exportId rule.id ≠ "__pron__".toList := by
  have hmem : .wildcard ⟨"pron".toList, "{1}".toList, true⟩
      ∈ Segment.segments "To \x7b　pron{1}\x7d.".toList := by decide +kernel
  obtain ⟨-, -, hid⟩ := isReservedId_ruleId?_iff _ _ hmem
  obtain ⟨hreserved, hrules⟩ := hid "__pron__".toList rfl
  refine ⟨hmem, hreserved.mpr (by decide), fun grammar hcheck rule hrule heq => ?_⟩
  exact absurd (hrules.mp ⟨grammar, hcheck, rule, hrule, heq⟩) (by decide)

/-- A grammar file whose wildcard and whose rule share the id `____`. It is not reserved, and the
grammar passes the check. -/
theorem ruleId?_not_reserved :
    ∃ grammar wildcard id,
      Grammar.parse [] "$Main = {}\n$____ = please".toList = .ok grammar ∧
      .wildcard wildcard ∈ Segment.segments "{}".toList ∧ wildcard.kind.ruleId? = some id ∧
      isReservedId id = false ∧ grammar.checkExportable = .ok () ∧
      ∃ rule ∈ grammar.rules, Rule.exportId rule.id = id := by
  refine ⟨Grammar.underscored, ⟨[], [], true⟩, "____".toList, rfl, by decide +kernel, rfl,
    by decide, rfl, ⟨"$____".toList, ["please".toList]⟩, by decide, rfl⟩

end TaskGrammar
