import TaskGrammar.Markup.Writer

/-!
# `TaskGrammar.Speech.Document`: speech-recognition documents

A speech document is a list of rules. The body of a rule is empty, or one phrase, or a
choice of phrases; a phrase is a sequence of words and of references to rules.
`Document.events` spells a document as markup in the W3C's format for speech
recognition grammars, `Document.render` writes it.
-/

set_option autoImplicit false

namespace TaskGrammar.Speech

open TaskGrammar.Markup

/-- A part of a phrase. -/
inductive Part
  | words (text : Text)
  | ruleRef (id : Text)
  deriving DecidableEq, Repr

/-- What is said, part by part. -/
abbrev Phrase := List Part

/-- The body of a rule. -/
inductive Body
  | empty
  | phrase (phrase : Phrase)
  | oneOf (phrases : List Phrase)
  deriving DecidableEq, Repr

/-- A rule of a document. -/
structure DocumentRule where
  id : Text
  body : Body
  deriving DecidableEq, Repr

/-- A speech document, rule by rule. -/
structure Document where
  rules : List DocumentRule
  deriving DecidableEq, Repr

/-- The id of the rule with which a document starts. -/
def mainId : Text :=
  "Main".toList

/-- A part as markup. -/
def Part.event : Part → Event
  | words text => .text text
  | ruleRef id => .emptyTag "ruleref".toList [("uri".toList, '#' :: id)]

/-- A phrase as an item of a choice. -/
def itemEvents (phrase : Phrase) : List Event :=
  [.startTag "item".toList []] ++ phrase.map Part.event ++ [.endTag "item".toList]

/-- A choice as markup; one without phrases is an empty element. -/
def choiceEvents : List Phrase → List Event
  | [] => [.emptyTag "one-of".toList []]
  | phrases =>
    [.startTag "one-of".toList []] ++ phrases.flatMap itemEvents ++ [.endTag "one-of".toList]

/-- A rule as markup; one with an empty body is an empty element. -/
def DocumentRule.events (rule : DocumentRule) : List Event :=
  match rule.body with
  | .empty => [.emptyTag "rule".toList [("id".toList, rule.id)]]
  | .phrase phrase =>
    [.startTag "rule".toList [("id".toList, rule.id)]] ++ phrase.map Part.event ++
      [.endTag "rule".toList]
  | .oneOf phrases =>
    [.startTag "rule".toList [("id".toList, rule.id)]] ++ choiceEvents phrases ++
      [.endTag "rule".toList]

namespace Document

/-- The attributes of the root element. -/
def rootAttributes : List (Text × Text) :=
  [("tag-format".toList, "semantics/1.0".toList), ("mode".toList, "voice".toList),
    ("xml:lang".toList, "en-US".toList), ("version".toList, "1.0".toList),
    ("root".toList, mainId)]

/-- A document as markup. -/
def events (document : Document) : List Event :=
  [.declaration, .startTag "grammar".toList rootAttributes] ++
    document.rules.flatMap DocumentRule.events ++ [.endTag "grammar".toList]

/-- The text of a document. -/
def render (document : Document) : Text :=
  Event.renderAll document.events

end Document

end TaskGrammar.Speech
