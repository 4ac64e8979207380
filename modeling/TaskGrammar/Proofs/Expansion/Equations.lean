import TaskGrammar.Expansion

/-!
# `TaskGrammar.Proofs.Expansion.Equations`: the steps of an expansion

What `Expansion.expandRule` does with a rule, one equation for each of its four
outcomes. They are what other proofs know of its definition.

* `expandRule_of_none`: a reference to no rule adds nothing.
* `expandRule_of_mem`: a rule that is on the path already is a cycle.
* `expandRule_of_le`: any other rule is too deep for a full path.
* `expandRule_of_lt`: below the limit a replacement is chosen and expanded.
* `expandRule_of_only`: the same without a choice.
-/

set_option autoImplicit false

namespace TaskGrammar.Expansion

variable {σ : Type} [RandomSource σ] {expansion : Expansion} {path : List Text} {id : Text}
  {rule : Rule}

/-- The tokens of the replacement that was chosen, if there was one to choose. -/
def expandChosen (expansion : Expansion) (path : List Text) : Option Text → Draw σ (List Token)
  | none => pure []
  | some template => expandSegments expansion path (Segment.segments template)

/-- A reference to a rule that is not there adds nothing. It is no fault, and nothing is drawn for
it. -/
theorem expandRule_of_none (hrule : expansion.grammar.rule? id = none) :
    (expandRule expansion path id : Draw σ (List Token)) = pure [] := by
  rw [expandRule]
  split
  · rfl
  · rename_i found hfound
    rw [hrule] at hfound
    cases hfound

/-- A rule that the path has already is a cycle, and the fault shows the way into it. This is
looked for before the limit, so a cycle is reported as one even where the path is full. -/
theorem expandRule_of_mem (hrule : expansion.grammar.rule? id = some rule) (hid : id ∈ path) :
    (expandRule expansion path id : Draw σ (List Token))
      = throw (.cyclicGrammar (id :: path).reverse) := by
  rw [expandRule]
  split
  · rename_i hnone
    rw [hrule] at hnone
    cases hnone
  · rw [dif_pos hid]

/-- Any other rule is too deep where the path is full. Nothing has been drawn for it then. -/
theorem expandRule_of_le (hrule : expansion.grammar.rule? id = some rule) (hid : id ∉ path)
    (hlimit : expansion.limit ≤ path.length) :
    (expandRule expansion path id : Draw σ (List Token))
      = throw (.recursionLimit id expansion.limit) := by
  rw [expandRule]
  split
  · rename_i hnone
    rw [hrule] at hnone
    cases hnone
  · rw [dif_neg hid, if_pos hlimit]

/-- Below the limit a replacement is chosen and expanded, with the rule on the path. Together with
the three lemmas before this one it covers all that an expansion of a rule can be. -/
theorem expandRule_of_lt (hrule : expansion.grammar.rule? id = some rule) (hid : id ∉ path)
    (hlimit : path.length < expansion.limit) :
    (expandRule expansion path id : Draw σ (List Token))
      = chooseReplacement rule.replacements >>= expandChosen expansion (id :: path) := by
  rw [expandRule]
  split
  · rename_i hnone
    rw [hrule] at hnone
    cases hnone
  · rename_i found hfound
    -- The definition chooses and matches at once; `expandChosen` is its second half.
    obtain rfl := Option.some.inj (hrule.symm.trans hfound)
    rw [dif_neg hid, if_neg (Nat.not_le.mpr hlimit)]
    refine congrArg (chooseReplacement rule.replacements >>= ·) (funext fun choice => ?_)
    cases choice <;> rfl

/-- A rule with a single replacement is expanded without a draw. Concrete grammars are evaluated
by this lemma, since it is the same for every source. -/
theorem expandRule_of_only {only : Text}
    (hrule : expansion.grammar.rule? id = some { id := id, replacements := [only] })
    (hid : id ∉ path) (hlimit : path.length < expansion.limit) :
    (expandRule expansion path id : Draw σ (List Token))
      = expandSegments expansion (id :: path) (Segment.segments only) := by
  rw [expandRule_of_lt hrule hid hlimit, chooseReplacement, pure_bind, expandChosen]

end TaskGrammar.Expansion
