import TaskGrammar.Grammar.Basic

/-!
# `TaskGrammar.Grammar.Lint`: problems of a grammar

The problems that would make a generated sentence or a document disappoint: rules
whose ids are kept for generated rules, references to rules that are not there,
wildcards that are never closed, and rules that lead back to themselves.

`findCycle?` searches depth first from the root. It keeps the path of rules that it
is inside of and the ids that it has entered; a rule that has been left without a
cycle is not entered again. The search ends because the path never repeats an id.
-/

set_option autoImplicit false

namespace TaskGrammar.Grammar

/-- The problems of one template of a rule, from left to right. -/
def templateProblems (grammar : Grammar) (rule : Rule) (template : Text) : List Fault :=
  (Segment.locate 0 template).filterMap fun located =>
    match located.2 with
    | .literal _ => none
    | .reference id =>
      if grammar.contains id then none else some (.undefinedReference rule.id id)
    | .wildcard wildcard =>
      if wildcard.terminated then none else some (.unterminatedWildcard template located.1)

/-- The problems of one rule: its id, then its templates in order. -/
def ruleProblems (grammar : Grammar) (rule : Rule) : List Fault :=
  (if isReservedId (Rule.exportId rule.id) then [.reservedRuleId rule.id] else []) ++
    rule.replacements.flatMap (grammar.templateProblems rule)

/-- The way from the last time a path was at `id` back to `id`, the path being
listed from its innermost rule outwards. -/
def closeCycle (path : List Text) (id : Text) : List Text :=
  id :: (path.takeWhile fun other => other != id).reverse ++ [id]

mutual

/-- Searches the rules that can be reached from `id`: the cycle that is met first, or
the ids entered so far. -/
def searchRule (grammar : Grammar) (path entered : List Text) (id : Text) :
    Except (List Text) (List Text) :=
  match _h : grammar.rule? id with
  | none => .ok entered
  | some rule =>
    -- Only rules on the path close a cycle; the others that were entered are done with.
    if _hid : id ∈ path then .error (closeCycle path id)
    else if id ∈ entered then .ok entered
    else searchAll grammar (id :: path) (id :: entered) rule.references
termination_by (grammar.unvisited path, 0)
decreasing_by exact Prod.Lex.left _ _ (unvisited_cons_lt _h _hid)

/-- Searches from each of the given ids in turn. -/
def searchAll (grammar : Grammar) (path entered : List Text) (ids : List Text) :
    Except (List Text) (List Text) :=
  match ids with
  | [] => .ok entered
  | id :: rest =>
    match searchRule grammar path entered id with
    | .error cycle => .error cycle
    | .ok entered' => searchAll grammar path entered' rest
termination_by (grammar.unvisited path, ids.length + 1)
decreasing_by
  · exact Prod.Lex.right _ (Nat.succ_pos _)
  · exact Prod.Lex.right _ (by simp)

end

/-- The first cycle met from the root, as a path that ends where it starts. -/
def findCycle? (grammar : Grammar) : Option (List Text) :=
  match grammar.searchRule [] [] rootId with
  | .error cycle => some cycle
  | .ok _ => none

/-- All problems: those of each rule in table order, then a cycle. -/
def lint (grammar : Grammar) : List Fault :=
  grammar.rules.flatMap grammar.ruleProblems ++
    (grammar.findCycle?.map Fault.cyclicGrammar).toList

end TaskGrammar.Grammar
