import Mathlib.Data.List.Chain
import Mathlib.Logic.Relation
import TaskGrammar.Proofs.Grammar.Table

/-!
# `TaskGrammar.Proofs.Grammar.Reachability`: following references

`Refers` relates a rule to the ids that its templates refer to, `Reaches` is any number
of such steps. Both walks over a grammar, the search for cycles and the expansion of a
rule, keep the rules that they are inside of on a path, the innermost first. `Trail` is
what that path means: the way from the start to the rule that is looked at, each rule
referring to the next and none of them twice.

* `acyclic_of_rank`: a ranking of the ids rules cycles out.
* `Trail.reaches`: a trail is a way that references allow.
* `Trail.transGen_of_mem`: a rule that is met inside itself leads back to itself.
* `Trail.linked`: the path read as a list of references.
* `Trail.length_lt_size`: a rule that is not on the path is met before the path holds
  every rule of the table.
-/

set_option autoImplicit false

namespace TaskGrammar.Grammar

variable {grammar : Grammar}

/-- A replacement of the rule `id` refers to `next`. The rule `id` is there; there need
not be one of the id `next`. -/
def Refers (grammar : Grammar) (id next : Text) : Prop :=
  ∃ rule, grammar.rule? id = some rule ∧
    ∃ template ∈ rule.replacements, Segment.reference next ∈ Segment.segments template

/-- Any number of references lead from one id to the other. Each id on the way but the
last has a rule, because it refers to the next. -/
def Reaches (grammar : Grammar) : Text → Text → Prop :=
  Relation.ReflTransGen grammar.Refers

/-- A rule refers to the ids that the search for cycles collects from its replacements. The
relation is over ids, and what the search has at hand is the rule. -/
theorem refers_iff_mem_references {id next : Text} {rule : Rule}
    (h : grammar.rule? id = some rule) :
    grammar.Refers id next ↔ next ∈ rule.references := by
  unfold Refers
  rw [Rule.mem_references]
  constructor
  · rintro ⟨other, hother, href⟩
    rw [h, Option.some.injEq] at hother
    exact hother ▸ href
  · intro href
    exact ⟨rule, h, href⟩

/-- Only a rule of the table refers to anything. -/
theorem Refers.contains {id next : Text} (h : grammar.Refers id next) :
    grammar.contains id = true := by
  obtain ⟨rule, hrule, -⟩ := h
  exact contains_of_rule? hrule

/-- Only a rule of the table leads on to anything. -/
theorem contains_of_transGen {id other : Text} (h : Relation.TransGen grammar.Refers id other) :
    grammar.contains id = true := by
  obtain ⟨next, href, -⟩ := Relation.TransGen.head'_iff.mp h
  exact href.contains

/-- Where every reference goes down in some ranking of the ids, so does every way. Then no id
leads back to itself. -/
theorem rank_lt_of_transGen (rank : Text → Nat)
    (hrank : ∀ rule ∈ grammar.rules, ∀ next ∈ rule.references, rank next < rank rule.id)
    {first last : Text} (h : Relation.TransGen grammar.Refers first last) :
    rank last < rank first := by
  have hdown : ∀ {id next}, grammar.Refers id next → rank next < rank id := by
    rintro id next ⟨rule, hrule, template, htemplate, hscan⟩
    obtain ⟨hmem, rfl⟩ := rule?_eq_some hrule
    exact hrank rule hmem next (Rule.mem_references.mpr ⟨template, htemplate, hscan⟩)
  induction h with
  | single href => exact hdown href
  | tail _ href ih => exact (hdown href).trans ih

/-- No rule within reach of the root leads back to itself. -/
def Acyclic (grammar : Grammar) : Prop :=
  ∀ id, grammar.Reaches rootId id → ¬ Relation.TransGen grammar.Refers id id

/-- A ranking in which every reference goes down rules cycles out. For a grammar that is given,
this can be checked rule by rule. -/
theorem acyclic_of_rank (rank : Text → Nat)
    (hrank : ∀ rule ∈ grammar.rules, ∀ next ∈ rule.references, rank next < rank rule.id) :
    grammar.Acyclic := by
  intro id _ hcycle
  exact Nat.lt_irrefl _ (rank_lt_of_transGen rank hrank hcycle)

/-- The path from the rule `start` to the rule `id`, the innermost rule first and `id`
itself not on it. -/
inductive Trail (grammar : Grammar) (start : Text) : List Text → Text → Prop
  | here : Trail grammar start [] start
  | step {path : List Text} {id next : Text} (trail : Trail grammar start path id)
      (fresh : id ∉ path) (refers : grammar.Refers id next) :
      Trail grammar start (id :: path) next

namespace Trail

variable {start id : Text} {path : List Text}

/-- A path never repeats an id. -/
theorem nodup (h : grammar.Trail start path id) : path.Nodup := by
  induction h with
  | here => exact List.nodup_nil
  | step _ fresh _ ih => exact List.nodup_cons.mpr ⟨fresh, ih⟩

/-- A trail is a way that references allow. -/
theorem reaches (h : grammar.Trail start path id) : grammar.Reaches start id := by
  induction h with
  | here => exact Relation.ReflTransGen.refl
  | step _ _ refers ih => exact ih.tail refers

/-- So each rule on it is within reach, too: up to there the trail is one as well. The induction
is on the trail, as a path alone does not say where it comes from. -/
theorem reaches_of_mem (h : grammar.Trail start path id) {other : Text} (hmem : other ∈ path) :
    grammar.Reaches start other := by
  induction h with
  | here => simp at hmem
  | step trail _ _ ih =>
    rcases List.mem_cons.mp hmem with rfl | hmem
    · exact trail.reaches
    · exact ih hmem

/-- From each rule on the path references lead to the end. -/
theorem transGen_of_mem (h : grammar.Trail start path id) {other : Text}
    (hmem : other ∈ path) : Relation.TransGen grammar.Refers other id := by
  induction h with
  | here => simp at hmem
  | step _ _ refers ih =>
    rcases List.mem_cons.mp hmem with rfl | hmem
    · exact Relation.TransGen.single refers
    · exact (ih hmem).tail refers

/-- Every rule on a trail is one of the table, since it leads on. -/
theorem contains_of_mem (h : grammar.Trail start path id) {other : Text}
    (hmem : other ∈ path) : grammar.contains other = true :=
  contains_of_transGen (h.transGen_of_mem hmem)

/-- Read from its end outwards, each id of a trail is referred to by the next. As a chain the
trail can be cut and turned round with what the library has. -/
theorem linked (h : grammar.Trail start path id) :
    (id :: path).IsChain fun later earlier => grammar.Refers earlier later := by
  induction h with
  | here => exact List.isChain_singleton _
  | step _ _ refers ih => exact List.isChain_cons_cons.mpr ⟨refers, ih⟩

/-- Short of the last rule to be entered, a path does not hold the whole table. -/
theorem length_lt_size (h : grammar.Trail start path id) (hid : grammar.contains id = true)
    (fresh : id ∉ path) : path.length < grammar.size := by
  -- The path and `id` are distinct ids of the table, so there are no more of them than rules.
  have hnodup : (id :: path).Nodup := List.nodup_cons.mpr ⟨fresh, h.nodup⟩
  have hids : ∀ other ∈ id :: path, grammar.contains other = true := by
    intro other hother
    rcases List.mem_cons.mp hother with rfl | hother
    · exact hid
    · exact h.contains_of_mem hother
  have hlen := length_le_size hnodup hids
  rw [List.length_cons] at hlen
  omega

end Trail

end TaskGrammar.Grammar
