import TaskGrammar.Entity.Entities
import TaskGrammar.Grammar.Basic
import TaskGrammar.Speech.Document

/-!
# `TaskGrammar.Speech.Conversion`: the document of a grammar

Each rule of a grammar becomes a rule of the document, the root first. A reference to
a rule that is not there becomes text, a wildcard a reference to the rule that lists
its collection. The six lists follow the rules. A wildcard of an unknown key refers to
a placeholder, an empty rule at the end of the document, for another program to fill.

`Speech.Document.ofGrammar` is the conversion.
-/

set_option autoImplicit false

namespace TaskGrammar.Speech

/-- The parts that a segment of a template becomes. -/
def partsOfSegment (grammar : Grammar) : Segment → Phrase
  | .literal text => [.words text]
  | .reference id =>
    if grammar.contains id then [.ruleRef (Rule.exportId id)] else [.words id]
  | .wildcard wildcard => (wildcard.kind.ruleId?.map Part.ruleRef).toList

/-- The phrase that a template becomes. -/
def phraseOf (grammar : Grammar) (template : Text) : Phrase :=
  (Segment.segments template).flatMap (partsOfSegment grammar)

/-- The body of a rule with the given replacements. -/
def bodyOf (grammar : Grammar) : List Text → Body
  | [] => .empty
  | [only] => .phrase (phraseOf grammar only)
  | replacements => .oneOf (replacements.map (phraseOf grammar))

/-- The rules of a grammar in the order of the document: the root, then the others. -/
def tableRules (grammar : Grammar) (root : Rule) : List Rule :=
  root :: grammar.rules.filter fun rule => rule.id != Grammar.rootId

/-- The document's rule for a rule of the grammar. -/
def ruleOf (grammar : Grammar) (rule : Rule) : DocumentRule :=
  { id := Rule.exportId rule.id, body := bodyOf grammar rule.replacements }

/-- The names of a list, each once, in the order in which they first come up. -/
def distinct (names : List Text) : List Text :=
  names.foldl (fun seen name => if name ∈ seen then seen else seen ++ [name]) []

/-- What a collection lists. -/
def listed (entities : Entities) : Collection → List Text
  | .gestures => entities.gestures.names
  | .names => entities.names.names
  | .locations => entities.locations.names
  | .objects => entities.objects.names
  | .categories => distinct (entities.objects.items.map fun object => object.category.name)
  | .questions => entities.questions.names

/-- The rule that lists a collection. -/
def listRule (entities : Entities) (collection : Collection) : DocumentRule :=
  { id := collection.ruleId
    body := .oneOf ((listed entities collection).map fun name => [.words name]) }

/-- The collections in the order of their lists. -/
def listOrder : List Collection :=
  [.gestures, .names, .locations, .objects, .categories, .questions]

/-- The placeholder that a segment refers to. -/
def placeholder? : Segment → Option Text
  | .wildcard wildcard =>
    match wildcard.kind with
    | .other _ => wildcard.kind.ruleId?
    | _ => none
  | _ => none

/-- The placeholders of some rules, each once, in the order in which they first come
up. -/
def placeholders (rules : List Rule) : List Text :=
  distinct <| rules.flatMap fun rule =>
    rule.replacements.flatMap fun template =>
      (Segment.segments template).filterMap placeholder?

/-- The document of a grammar whose root rule is given. -/
def documentOf (grammar : Grammar) (entities : Entities) (root : Rule) : Document :=
  { rules :=
      (tableRules grammar root).map (ruleOf grammar) ++
        listOrder.map (listRule entities) ++
        (placeholders (tableRules grammar root)).map fun id => { id := id, body := .empty } }

/-- The document of a grammar. It needs a root rule, and no rule may have an id that is
kept for generated rules. -/
def Document.ofGrammar (grammar : Grammar) (entities : Entities) : Except Fault Document :=
  match grammar.root? with
  | none => .error (.missingRoot grammar.name)
  | some root =>
    match grammar.checkExportable with
    | .error fault => .error fault
    | .ok () => .ok (documentOf grammar entities root)

/-- The text of a grammar's document. -/
def convert (grammar : Grammar) (entities : Entities) : Except Fault Text :=
  (Document.ofGrammar grammar entities).map Document.render

end TaskGrammar.Speech
