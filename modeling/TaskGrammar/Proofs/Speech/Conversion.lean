import TaskGrammar.Proofs.Grammar.Table
import TaskGrammar.Speech.Conversion

/-!
# `TaskGrammar.Proofs.Speech.Conversion`: when a conversion succeeds, and with what

* `ofGrammar_eq_ok_iff` / `convert_eq_ok_iff`: a conversion succeeds with the document of
  the root rule, if there is one and the ids allow it, and writes this document.
* `mem_tableRules`: the rules that are converted are those of the grammar.
* `ruleOf_mem_documentOf` / `listRule_mem_documentOf`: the document holds every rule of
  the grammar and every list.
-/

set_option autoImplicit false

namespace TaskGrammar.Speech

variable {grammar : Grammar} {entities : Entities} {root : Rule}

/-- A grammar is converted if it has a root rule and no id that is kept for generated
rules. -/
theorem ofGrammar_eq_ok_iff {document : Document} :
    Document.ofGrammar grammar entities = .ok document ↔
      ∃ root, grammar.root? = some root ∧
        (∀ rule ∈ grammar.rules, isReservedId (Rule.exportId rule.id) = false) ∧
        documentOf grammar entities root = document := by
  unfold Document.ofGrammar
  cases hroot : grammar.root? with
  | none => simp
  | some root =>
    rw [← Grammar.checkExportable_eq_ok_iff]
    cases hexportable : grammar.checkExportable with
    | error fault => simp
    | ok _ => simp

/-- What is written is the document of the grammar. -/
theorem convert_eq_ok_iff {xml : Text} :
    convert grammar entities = .ok xml ↔
      ∃ document, Document.ofGrammar grammar entities = .ok document ∧ document.render = xml := by
  unfold convert
  cases Document.ofGrammar grammar entities with
  | error fault => simp [Except.map]
  | ok document => simp [Except.map]

/-- The root first and the others after it are the rules of the grammar. Nothing is lost by taking
the root out, as no other rule has its id. -/
theorem mem_tableRules (hroot : grammar.root? = some root) {rule : Rule} :
    rule ∈ tableRules grammar root ↔ rule ∈ grammar.rules := by
  unfold tableRules
  rw [List.mem_cons, List.mem_filter]
  constructor
  · rintro (rfl | ⟨hrule, -⟩)
    · exact (Grammar.rule?_eq_some hroot).1
    · exact hrule
  · intro hrule
    by_cases hid : rule.id = Grammar.rootId
    · -- The table has no second rule of the root's id that the filter could drop.
      have hsame := Grammar.rule?_of_mem hrule
      rw [hid, show grammar.rule? Grammar.rootId = grammar.root? from rfl, hroot,
        Option.some.injEq] at hsame
      exact .inl hsame.symm
    · exact .inr ⟨hrule, by simpa using hid⟩

/-- Each rule of the grammar is one of the document. -/
theorem ruleOf_mem_documentOf (hroot : grammar.root? = some root) {rule : Rule}
    (hrule : rule ∈ grammar.rules) :
    ruleOf grammar rule ∈ (documentOf grammar entities root).rules := by
  have htable := (mem_tableRules hroot).mpr hrule
  unfold documentOf
  exact List.mem_append_left _ (List.mem_append_left _ (List.mem_map_of_mem htable))

/-- The list of each collection is a rule of the document. -/
theorem listRule_mem_documentOf (collection : Collection) :
    listRule entities collection ∈ (documentOf grammar entities root).rules := by
  have horder : collection ∈ listOrder := by
    cases collection <;> decide
  unfold documentOf
  exact List.mem_append_left _ (List.mem_append_right _ (List.mem_map_of_mem horder))

end TaskGrammar.Speech
