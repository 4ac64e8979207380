import TaskGrammar.Proofs.Speech.ReadBack
import TaskGrammar.Proofs.Speech.RuleIds

/-!
# `TaskGrammar.Proofs.Speech.Signs`: a document sign by sign

Who reads a document event by event meets its layout between the tags. A text that has line
feeds and tabs of its own cannot be told from it: two references with a line feed and two tabs
between them are written in the same way as two references with nothing between them. So what
a reader can know of any document, whatever its words are, is what is left when line feeds and
tabs are passed over. `Event.signs` is that, sign by sign: the rule elements, the items, the
references, and the other characters of the texts.

Signs are read off each event on its own, so that texts may be cut or joined without changing
them.

* `signs_of_readAll?`: the signs of the events that a reader finds are those of the rules that
  were written.
-/

set_option autoImplicit false

namespace TaskGrammar

open TaskGrammar.Markup

/-- What a reader of a document meets. -/
inductive Speech.Sign
  | rule (id : Text)
  | item
  | ruleRef (id : Text)
  | character (c : Char)
  deriving DecidableEq, Repr

open Speech

/-- The sign of a character of a text: none if it may be layout. -/
def Speech.Sign.ofChar (c : Char) : List Sign :=
  if c = '\n' ∨ c = '\t' then [] else [.character c]

/-- The signs of an event: those of the characters of a text, or the sign of a tag that opens a
rule or an item, or refers to a rule. -/
def Markup.Event.signs : Event → List Sign
  | .text content => content.flatMap Sign.ofChar
  | .startTag name attributes | .emptyTag name attributes =>
    if name = "item".toList then [.item]
    else
      ((Event.emptyTag name attributes).ruleId?.map Sign.rule).toList ++
        ((Event.emptyTag name attributes).ruleRefId?.map Sign.ruleRef).toList
  | .declaration | .endTag _ => []

namespace Speech

/-- The signs of a phrase. -/
def signsOfPhrase (phrase : Phrase) : List Sign :=
  phrase.flatMap fun
    | .words text => text.flatMap Sign.ofChar
    | .ruleRef id => [.ruleRef id]

/-- The signs of a body with phrases among which it chooses: one is on its own, and several are
items. -/
def signsOfChoice : List (List Sign) → List Sign
  | [only] => only
  | choices => choices.flatMap fun choice => .item :: choice

/-- The signs of a rule. -/
def DocumentRule.signs (rule : DocumentRule) : List Sign :=
  .rule rule.id :: match rule.body with
    | .empty => []
    | .phrase only => signsOfPhrase only
    | .oneOf phrases => phrases.flatMap fun phrase => .item :: signsOfPhrase phrase

/-- The events of a phrase have the signs of the phrase, part by part. -/
theorem flatMap_signs_phrase (phrase : Phrase) :
    (phrase.map Part.event).flatMap Event.signs = signsOfPhrase phrase := by
  rw [List.flatMap_map, signsOfPhrase]
  refine List.flatMap_congr fun part _ => ?_
  cases part <;> rfl

/-- Those of a choice have the signs of its items, each behind the sign of an item. The tags of
the choice itself have none. -/
theorem flatMap_signs_choice (phrases : List Phrase) :
    (choiceEvents phrases).flatMap Event.signs
      = phrases.flatMap fun phrase => .item :: signsOfPhrase phrase := by
  have hitem : ∀ phrase,
      (itemEvents phrase).flatMap Event.signs = .item :: signsOfPhrase phrase := by
    intro phrase
    rw [itemEvents, List.flatMap_append, List.flatMap_append, flatMap_signs_phrase]
    exact List.append_nil _
  cases phrases with
  | nil => rfl
  | cons first others =>
    rw [choiceEvents, List.flatMap_append, List.flatMap_append, List.flatMap_assoc]
    · simp only [hitem]
      exact List.append_nil _
    · nofun

/-- The elements of a rule have the signs of the rule. A single phrase is written without items,
and so has none among its signs. -/
theorem flatMap_signs_rule (rule : DocumentRule) :
    rule.events.flatMap Event.signs = rule.signs := by
  obtain ⟨id, body⟩ := rule
  cases body with
  | empty => rfl
  | phrase only =>
    rw [DocumentRule.events, List.flatMap_append, List.flatMap_append, flatMap_signs_phrase]
    exact List.append_nil _
  | oneOf phrases =>
    rw [DocumentRule.events, List.flatMap_append, List.flatMap_append, flatMap_signs_choice]
    exact List.append_nil _

/-- The signs that a reader of a document meets are those of its rules, whatever is in its words.
-/
theorem signs_of_readAll? {document : Document} {events : List Event}
    (hread : Event.readAll? document.render = some events) :
    events.flatMap Event.signs = document.rules.flatMap DocumentRule.signs := by
  have hlaid := (Event.readAll?_renderAll document.isPlain_content).symm.trans hread
  rw [← Option.some.inj hlaid, Event.flatMap_joined_laidOut (fun _ => rfl) rfl rfl,
    Document.content, List.flatMap_append, List.flatMap_append, List.flatMap_assoc]
  simp only [flatMap_signs_rule]
  exact List.append_nil _

end Speech

end TaskGrammar
