import TaskGrammar.Entity.Entities
import TaskGrammar.Grammar.Basic
import TaskGrammar.Random.Source

/-!
# `TaskGrammar.Expansion`: sentences of a grammar

A rule is expanded by choosing one of its replacements and expanding its segments
from left to right: a reference by the rule it names, a wildcard by drawing an
entity, literal text by itself. A rule without replacements and a reference to no
rule add nothing. A rule that is met inside its own expansion is a fault, and so is
a rule nested deeper than the limit.

The path holds the rules that an expansion is inside of, the innermost first. It
never repeats an id, so every expansion ends.
-/

set_option autoImplicit false

namespace TaskGrammar

namespace Entities

/-- The tokens of the entities that a wildcard may draw, in order. -/
def candidates (entities : Entities) : Wildcard.Kind → List Token
  | .category => entities.categories.items.map Entity.token
  | .gesture => entities.gestures.items.map Entity.token
  | .question => entities.questions.items.map Entity.token
  | .name filter => (entities.names.items.filter filter.admits).map Entity.token
  | .location filter => (entities.locations.items.filter filter.admits).map Entity.token
  | .object filter => (entities.objects.items.filter filter.admits).map Entity.token
  | .void => []
  | .other _ => []

end Entities

namespace Wildcard

/-- Whether the entities of a kind pass a filter first, be it one that admits all of
them. -/
def Kind.isFiltered : Kind → Bool
  | name _ => true
  | location _ => true
  | object _ => true
  | _ => false

end Wildcard

/-- What an expansion works with: a grammar, the datasets, and how many rules may be
nested. -/
structure Expansion where
  grammar : Grammar
  entities : Entities
  limit : Nat

namespace Expansion

variable {σ : Type} [RandomSource σ]

/-- Draws one of the candidates of a kind: from a filtered dataset by one draw for
each candidate, from a whole one by a single draw. -/
def drawCandidate (entities : Entities) (kind : Wildcard.Kind) : Draw σ (Option Token) :=
  if kind.isFiltered then Random.drawKept (entities.candidates kind)
  else Random.drawAny (entities.candidates kind)

/-- The tokens that a wildcard adds. The wildcard for nothing adds a token without
text, and only to carry a remark. -/
def expandWildcard (entities : Entities) (wildcard : Wildcard) : Draw σ (List Token) :=
  match wildcard.kind with
  | .void =>
    pure (wildcard.metadata.map fun remark => { text := [], metadata := [remark] }).toList
  | kind => do
    match ← drawCandidate entities kind with
    | none => throw (.noCandidates wildcard.key)
    | some token => pure [token.annotate wildcard.metadata]

/-- Chooses a replacement: none of none, without a draw if there is only one. -/
def chooseReplacement : List Text → Draw σ (Option Text)
  | [] => pure none
  | [only] => pure (some only)
  | first :: second :: rest => do
    let position ← Random.drawBelow64 (first :: second :: rest).length (Nat.succ_pos _)
    pure (some ((first :: second :: rest).get position))

mutual

/-- The tokens of a rule, met inside the rules of the path. -/
def expandRule (expansion : Expansion) (path : List Text) (id : Text) : Draw σ (List Token) :=
  match _h : expansion.grammar.rule? id with
  | none => pure []
  | some rule =>
    -- The path comes first: a cycle is reported as such whatever the limit.
    if _hid : id ∈ path then throw (.cyclicGrammar (id :: path).reverse)
    else if expansion.limit ≤ path.length then throw (.recursionLimit id expansion.limit)
    else do
      match ← chooseReplacement rule.replacements with
      | none => pure []
      | some template => expandSegments expansion (id :: path) (Segment.segments template)
termination_by (expansion.grammar.unvisited path, 0)
decreasing_by exact Prod.Lex.left _ _ (Grammar.unvisited_cons_lt _h _hid)

/-- The tokens of a run of segments, inside the rules of the path. -/
def expandSegments (expansion : Expansion) (path : List Text) (segments : List Segment) :
    Draw σ (List Token) :=
  match segments with
  | [] => pure []
  | .literal text :: rest => do
    let tokens ← expandSegments expansion path rest
    pure (Token.literal text :: tokens)
  | .reference id :: rest => do
    let first ← expandRule expansion path id
    let tokens ← expandSegments expansion path rest
    pure (first ++ tokens)
  | .wildcard wildcard :: rest => do
    let first ← expandWildcard expansion.entities wildcard
    let tokens ← expandSegments expansion path rest
    pure (first ++ tokens)
termination_by (expansion.grammar.unvisited path, segments.length + 1)
decreasing_by
  · exact Prod.Lex.right _ (by simp)
  · exact Prod.Lex.right _ (Nat.succ_pos _)
  · exact Prod.Lex.right _ (by simp)
  · exact Prod.Lex.right _ (by simp)

end

/-- A task that starts with the given rule. -/
def taskFrom (expansion : Expansion) (id : Text) : Draw σ Task := do
  let tokens ← expandRule expansion [] id
  pure { tokens := tokens }

/-- A task of the grammar. -/
def task (expansion : Expansion) : Draw σ Task :=
  taskFrom expansion Grammar.rootId

end Expansion

end TaskGrammar
