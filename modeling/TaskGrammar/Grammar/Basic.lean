import TaskGrammar.Fault
import TaskGrammar.Template.Segment

/-!
# `TaskGrammar.Grammar.Basic`: the rule table

A grammar has a name, a tier and a table of rules. A rule offers its replacement
templates in the order in which they were added. The table keeps its rules in the
order in which their ids first came up, and holds each id once.

* `ids_extend`: adding to an id that is there leaves the ids alone, adding to a new
  id puts it last.
* `Grammar.addRule`: the one way to add rules.
-/

set_option autoImplicit false

namespace TaskGrammar

/-- A rule: its id, with the sigil, and the templates that may replace it. -/
structure Rule where
  id : Text
  replacements : List Text
  deriving DecidableEq, Repr

namespace Rule

/-- The id without the sigil, under which a document has the rule. -/
def exportId (id : Text) : Text :=
  match id with
  | [] => []
  | c :: rest => if c = Segment.sigil then rest else c :: rest

/-- The ids that the rule's templates refer to, in order. -/
def references (rule : Rule) : List Text :=
  rule.replacements.flatMap Segment.references

/-- Adds replacements to the rule of an id, or a new rule at the end. -/
def extend (rules : List Rule) (id : Text) (replacements : List Text) : List Rule :=
  match rules with
  | [] => [{ id := id, replacements := replacements }]
  | rule :: rest =>
    if rule.id = id then
      { rule with replacements := rule.replacements ++ replacements } :: rest
    else
      rule :: extend rest id replacements

/-- The ids after an addition: the same, or one more at the end. An id that is there keeps its
place, and so do all others. -/
theorem ids_extend (rules : List Rule) (id : Text) (replacements : List Text) :
    (extend rules id replacements).map Rule.id
      = if id ∈ rules.map Rule.id then rules.map Rule.id else rules.map Rule.id ++ [id] := by
  induction rules with
  | nil => simp [extend]
  | cons rule rest ih =>
    by_cases h : rule.id = id
    · simp [extend, h]
    · have h' : id ≠ rule.id := fun e => h e.symm
      simp only [extend, if_neg h, List.map_cons, ih, List.mem_cons, h', false_or]
      split <;> simp

/-- An addition keeps the ids distinct. -/
theorem nodup_ids_extend {rules : List Rule} (h : (rules.map Rule.id).Nodup) (id : Text)
    (replacements : List Text) : ((extend rules id replacements).map Rule.id).Nodup := by
  rw [ids_extend]
  split
  · exact h
  · rename_i hid
    refine List.nodup_append.mpr ⟨h, by simp, fun a ha b hb e => hid ?_⟩
    rwa [← List.mem_singleton.mp hb, ← e]

end Rule

/-- A named table of rules, each id in it once. -/
structure Grammar where
  name : Text
  tier : Tier
  rules : List Rule
  nodup_ids : (rules.map Rule.id).Nodup
  deriving DecidableEq

namespace Grammar

/-- The id of the rule with which every sentence starts. -/
def rootId : Text :=
  "$Main".toList

/-- A grammar without rules. -/
def empty (name : Text) (tier : Tier) : Grammar :=
  { name := name, tier := tier, rules := [], nodup_ids := List.nodup_nil }

/-- Adds replacements to the rule of an id, which is created if need be. -/
def addRule (grammar : Grammar) (id : Text) (replacements : List Text) : Grammar :=
  { grammar with
    rules := Rule.extend grammar.rules id replacements
    nodup_ids := Rule.nodup_ids_extend grammar.nodup_ids id replacements }

/-- A grammar with the given rules, added one after the other. -/
def ofRules (name : Text) (tier : Tier) (rules : List Rule) : Grammar :=
  rules.foldl (fun grammar rule => grammar.addRule rule.id rule.replacements) (empty name tier)

/-- The rule of an id. -/
def rule? (grammar : Grammar) (id : Text) : Option Rule :=
  grammar.rules.find? fun rule => rule.id == id

/-- Whether there is a rule of the id. -/
def contains (grammar : Grammar) (id : Text) : Bool :=
  grammar.rules.any fun rule => rule.id == id

/-- The rule with which every sentence starts. -/
def root? (grammar : Grammar) : Option Rule :=
  grammar.rule? rootId

/-- The number of rules. -/
def size (grammar : Grammar) : Nat :=
  grammar.rules.length

/-- Fails when there is no root rule. -/
def checkRoot (grammar : Grammar) : Except Fault Unit :=
  if grammar.contains rootId then .ok () else .error (.missingRoot grammar.name)

/-- Fails at the first rule whose exported id is kept for generated rules. -/
def checkExportable (grammar : Grammar) : Except Fault Unit :=
  match grammar.rules.find? fun rule => isReservedId (Rule.exportId rule.id) with
  | some rule => .error (.reservedRuleId rule.id)
  | none => .ok ()

/-- The grammar itself, if it has a root rule. -/
def requireRoot (grammar : Grammar) : Except Fault Grammar :=
  grammar.checkRoot.map fun _ => grammar

/-- How many rules are not among the given ids: what is left for a walk that never
enters a rule twice. -/
def unvisited (grammar : Grammar) (visited : List Text) : Nat :=
  (grammar.rules.filter fun rule => rule.id ∉ visited).length

/-- A rule that is found is in the table, under the id that was asked for. -/
theorem rule?_eq_some {grammar : Grammar} {id : Text} {rule : Rule}
    (h : grammar.rule? id = some rule) : rule ∈ grammar.rules ∧ rule.id = id := by
  refine ⟨List.mem_of_find?_eq_some h, ?_⟩
  simpa using List.find?_some h

/-- Entering a rule for the first time leaves fewer rules to enter. This is the measure by which
the recursions along references end. -/
theorem unvisited_cons_lt {grammar : Grammar} {id : Text} {rule : Rule} {visited : List Text}
    (h : grammar.rule? id = some rule) (hid : id ∉ visited) :
    grammar.unvisited (id :: visited) < grammar.unvisited visited := by
  obtain ⟨hmem, rfl⟩ := rule?_eq_some h
  have hsub : (grammar.rules.filter fun other => decide (other.id ∉ rule.id :: visited))
      = (grammar.rules.filter fun other => decide (other.id ∉ visited)).filter
          fun other => decide (other.id ≠ rule.id) := by
    rw [List.filter_filter]
    congr 1
    funext other
    simp [List.mem_cons, not_or]
  unfold unvisited
  rw [hsub]
  refine Nat.lt_of_le_of_ne (List.length_filter_le _ _) fun heq => ?_
  have hall := List.length_filter_eq_length_iff.mp heq rule
    (List.mem_filter.mpr ⟨hmem, by simpa using hid⟩)
  simp at hall

end Grammar

end TaskGrammar
