import TaskGrammar.Proofs.Expansion.Derivation
import TaskGrammar.Proofs.Grammar.CycleSearch

/-!
# `TaskGrammar.Proofs.Expansion.Success`: an accepted grammar can always be expanded

An expansion explains each of its faults (`Expansion.Explains`). A grammar that the lint
finds no cycle in, datasets that serve every wildcard and a limit of at least one level
for each rule leave nothing to explain.

* `Explains.not_of_acyclic`: the three kinds of faults, one hypothesis against each.
* `task_ok_of_lint`: every task of such a grammar succeeds, unless the random source does
  not end a draw.
-/

set_option autoImplicit false

namespace TaskGrammar

/-- Each wildcard within reach of the root rule, the one for nothing apart, has an entity
to stand for. An unknown key has none. -/
def Entities.Serves (entities : Entities) (grammar : Grammar) : Prop :=
  ∀ id rule template wildcard, grammar.Reaches Grammar.rootId id →
    grammar.rule? id = some rule → template ∈ rule.replacements →
    Segment.wildcard wildcard ∈ Segment.segments template → wildcard.kind ≠ .void →
    ∃ token, entities.Offers wildcard.kind token

namespace Expansion

variable {expansion : Expansion}

/-- No fault has an explanation. A cycle contradicts the search, the limit is past the
number of distinct rules on a path, and every wildcard is served. -/
theorem Explains.not_of_acyclic (hcycle : expansion.grammar.findCycle? = none)
    (hserves : expansion.entities.Serves expansion.grammar)
    (hlimit : expansion.grammar.size ≤ expansion.limit) (fault : Fault) :
    ¬ expansion.Explains Grammar.rootId fault := by
  intro h
  cases h with
  | cyclicGrammar trail repeated =>
    exact Grammar.not_transGen_of_findCycle?_eq_none hcycle trail.reaches
      (trail.transGen_of_mem repeated)
  | recursionLimit trail defined fresh full =>
    have hlt := trail.length_lt_size defined fresh
    omega
  | noCandidates reaches found chosen scanned notVoid none =>
    obtain ⟨token, htoken⟩ := hserves _ _ _ _ reaches found chosen scanned notVoid
    exact none token htoken

/-- Let the lint find no cycle, let the datasets serve every wildcard within reach of the
root, and let the limit be at least the number of rules. Then no task fails because of
the grammar, the datasets or the limit: from any source, the one fault left is a draw
that does not end, and from a source on which each draw of the expansion ends there is a
task. -/
theorem task_ok_of_lint {σ : Type} [RandomSource σ] (expansion : Expansion) (source : σ)
    (hlint : ∀ cycle, Fault.cyclicGrammar cycle ∉ expansion.grammar.lint)
    (hserves : expansion.entities.Serves expansion.grammar)
    (hlimit : expansion.grammar.size ≤ expansion.limit) :
    (∀ fault, ((expansion.task : Draw σ Task).outcome source).1 = .error fault →
      fault = .endlessDraw) ∧
    (Random.DrawsEnd expansion.DrawsBelow source →
      ∃ task, ((expansion.task : Draw σ Task).outcome source).1 = .ok task) := by
  have hcycle : expansion.grammar.findCycle? = none := by
    cases hfind : expansion.grammar.findCycle? with
    | none => rfl
    | some cycle => exact absurd (Grammar.cyclicGrammar_mem_lint_iff.mpr hfind) (hlint cycle)
  have hnone := Explains.not_of_acyclic hcycle hserves hlimit
  constructor
  · intro fault hfault
    have h := (task_satisfies expansion Random.respects_any).fault_of_error trivial hfault
    exact h.resolve_right (hnone fault)
  · -- Where draws end, the one fault that is left cannot come up either.
    rintro ⟨inv, hdraws, hsource⟩
    have h := (task_satisfies expansion hdraws).mono_fault fun fault hfault =>
      hfault.resolve_right (hnone fault)
    exact h.exists_ok hsource

/-- A grammar in which two rules refer to a third, with an undefined reference and a rule
without replacements. -/
def diamond : Grammar :=
  Grammar.ofRules [] .unknown
    [{ id := "$Main".toList, replacements := ["$a or $b{void}".toList, "$b, $c".toList] },
      { id := "$a".toList, replacements := ["greet {female}".toList] },
      { id := "$b".toList, replacements := ["$a $nowhere".toList] },
      { id := "$c".toList, replacements := [] }]

/-- Two names, of which one is a female one. -/
def twoNames : Entities :=
  Entities.empty.withNames
    [{ name := "Bob".toList, gender := .male }, { name := "Eve".toList, gender := .female }]

/-- The diamond has no cycle, its wildcards ask for nothing or for a female name, and the
source of zeros ends every draw: with one level for each of the four rules there is a task. -/
theorem task_ok_diamond :
    ∃ task, (((Expansion.mk diamond twoNames 4).task : Draw Script Task).outcome
      (Script.ofWords [0])).1 = .ok task := by
  have hdown : ∀ rule ∈ diamond.rules, ∀ next ∈ rule.references,
      ["$nowhere".toList, "$c".toList, "$a".toList, "$b".toList, "$Main".toList].idxOf next
        < ["$nowhere".toList, "$c".toList, "$a".toList, "$b".toList, "$Main".toList].idxOf rule.id
      := by decide +kernel
  have hkinds : ∀ wildcard ∈ diamond.wildcards,
      wildcard.kind = .void ∨ wildcard.kind = .name .female := by decide +kernel
  refine (task_ok_of_lint ⟨diamond, twoNames, 4⟩ (Script.ofWords [0]) ?_ ?_ (by decide)).2
    (Script.drawsEnd_zero _)
  · exact Grammar.cyclicGrammar_notMem_lint _ hdown
  · -- Every wildcard of the grammar asks for nothing or for a female name.
    intro id rule template wildcard _ hrule htemplate hscan hvoid
    have hmem := Grammar.mem_wildcards.mpr
      ⟨rule, (Grammar.rule?_eq_some hrule).1, template, htemplate, hscan⟩
    have hkind := (hkinds wildcard hmem).resolve_left hvoid
    rw [hkind]
    exact ⟨_, { name := "Eve".toList, gender := .female }, by decide, rfl, rfl⟩

end Expansion

end TaskGrammar
