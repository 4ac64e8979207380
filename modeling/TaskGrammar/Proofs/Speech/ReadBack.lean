import Mathlib.Data.List.Nodup
import TaskGrammar.Proofs.Markup.Tree
import TaskGrammar.Speech.Document

/-!
# `TaskGrammar.Proofs.Speech.ReadBack`: documents are read back

A document is written event by event. Read plainly it is a tree: each rule is an empty
element, an element with the one phrase in it, or an element with a choice in it. What a
reader cannot see is where words were put together, so that the tree is that of
`Document.joined`.

Three facts have to be known of all the events of a document, and each goes through the
elements in the same way: which texts are joined (`Joins`), which trees they build
(`Tree.Builds`), and what holds of each of them (`Document.forall_mem_content`).

* `Document.joined_content`: joining the words of a document joins the texts of its events.
* `Document.builds_content`: the events of a document build its tree.
* `Document.readAll?_encode_render`: a document without line breaks in its words is read
  back.
-/

set_option autoImplicit false

namespace TaskGrammar

open TaskGrammar.Markup

/-- The id of the rule of the same document that an event refers to. -/
def Markup.Event.ruleRefId? : Event → Option Text
  | .startTag name attributes | .emptyTag name attributes =>
    if name = "ruleref".toList then
      match attributes.lookup "uri".toList with
      | some ('#' :: id) => some id
      | _ => none
    else none
  | _ => none

namespace Speech

/-- The phrases among which the body of a rule chooses. An empty body says nothing, a
choice without phrases has none. -/
def Body.choices : Body → List Phrase
  | .empty => [[]]
  | .phrase only => [only]
  | .oneOf phrases => phrases

/-! ### Words in a row -/

/-- Puts words before a phrase: no words are nothing, and others go on with the words that
are there. -/
def joinWords (text : Text) : Phrase → Phrase
  | .words more :: rest => .words (text ++ more) :: rest
  | phrase => if text = [] then phrase else .words text :: phrase

/-- A phrase with words in a row joined and without empty ones. -/
def joinedPhrase : Phrase → Phrase
  | [] => []
  | .words text :: rest => joinWords text (joinedPhrase rest)
  | .ruleRef id :: rest => .ruleRef id :: joinedPhrase rest

/-- A body whose phrases are joined. -/
def Body.joined : Body → Body
  | .empty => .empty
  | .phrase only => .phrase (joinedPhrase only)
  | .oneOf phrases => .oneOf (phrases.map joinedPhrase)

/-- A rule whose phrases are joined. -/
def DocumentRule.joined (rule : DocumentRule) : DocumentRule :=
  { rule with body := rule.body.joined }

/-- A document whose phrases are joined. -/
def Document.joined (document : Document) : Document :=
  { rules := document.rules.map DocumentRule.joined }

/-- What joining a text does to the events of a phrase, joining words does to the phrase: both go
on with the text that is there, and both leave out an empty one. -/
theorem joinText_map_event (text : Text) (phrase : Phrase) :
    Event.joinText text (phrase.map Part.event) = (joinWords text phrase).map Part.event := by
  cases phrase with
  | nil =>
    simp only [List.map_nil, Event.joinText, joinWords]
    split <;> rfl
  | cons part phrase =>
    cases part with
    | words more => rfl
    | ruleRef id =>
      simp only [List.map_cons, Part.event, Event.joinText, joinWords]
      split <;> rfl

/-- The events of a joined phrase are the joined events of the phrase. The induction is on the
phrase, and only at words is there something to be put together. -/
theorem joined_map_event (phrase : Phrase) :
    Event.joined (phrase.map Part.event) = (joinedPhrase phrase).map Part.event := by
  induction phrase with
  | nil => rfl
  | cons part phrase ih =>
    cases part with
    | words text =>
      rw [List.map_cons, Part.event, Event.joined, ih, joinText_map_event, joinedPhrase]
    | ruleRef id =>
      rw [List.map_cons, Part.event, Event.joined_cons_of_isText rfl, ih, joinedPhrase,
        List.map_cons, Part.event]

/-- Events whose texts are joined on their own, whatever follows them. -/
def Joins (events events' : List Event) : Prop :=
  ∀ rest, Event.joined (events ++ rest) = events' ++ Event.joined rest

/-- Events that are joined whatever follows them are joined on their own. -/
theorem Joins.joined {events events' : List Event} (h : Joins events events') :
    Event.joined events = events' := by
  have hall := h []
  rwa [List.append_nil, show Event.joined [] = [] from rfl, List.append_nil] at hall

/-- Pieces that join on their own do so in a row, since no text of one goes on into the next. -/
theorem Joins.flatMap {α : Type} {f : α → List Event} {g : α → α}
    (h : ∀ a, Joins (f a) (f (g a))) (l : List α) : Joins (l.flatMap f) ((l.map g).flatMap f) := by
  induction l with
  | nil => exact fun _ => rfl
  | cons a l ih =>
    intro rest
    rw [List.flatMap_cons, List.append_assoc, h, ih, List.map_cons, List.flatMap_cons,
      List.append_assoc]

/-- A tag stays as it is, and a text in front of it is not joined with one behind it. -/
theorem joins_emptyTag (name : Text) (attributes : List (Text × Text)) :
    Joins [.emptyTag name attributes] [.emptyTag name attributes] :=
  fun rest => Event.joined_cons_of_isText rfl rest

/-- No text of an element goes on behind its tags, so whatever stands in it can be joined by
itself. -/
theorem joins_element (name : Text) (attributes : List (Text × Text)) {inner inner' : List Event}
    (h : Event.joined inner = inner') :
    Joins ([.startTag name attributes] ++ inner ++ [.endTag name])
      ([.startTag name attributes] ++ inner' ++ [.endTag name]) := by
  intro rest
  -- The end tag keeps the texts before it from those behind it.
  have hsplit : [Event.startTag name attributes] ++ inner ++ [.endTag name] ++ rest
      = .startTag name attributes :: (inner ++ .endTag name :: rest) := by
    simp only [List.append_assoc, List.cons_append, List.nil_append]
  rw [hsplit, Event.joined_cons_of_isText rfl, Event.joined_append_cons rfl, h]
  simp only [List.append_assoc, List.cons_append, List.nil_append]

/-- So the joined phrase of an item is an item again. -/
theorem joins_item (phrase : Phrase) :
    Joins (itemEvents phrase) (itemEvents (joinedPhrase phrase)) :=
  joins_element _ _ (joined_map_event phrase)

/-- And the items of a choice are joined one by one. A choice without items is one tag. -/
theorem joins_choice (phrases : List Phrase) :
    Joins (choiceEvents phrases) (choiceEvents (phrases.map joinedPhrase)) := by
  cases phrases with
  | nil => exact joins_emptyTag _ _
  | cons first others => exact joins_element _ _ (Joins.flatMap joins_item (first :: others)).joined

/-- A rule is joined in its body, which is between its tags or empty. This is the case by case
part of the whole: each kind of body has events of its own shape. -/
theorem joins_rule (rule : DocumentRule) : Joins rule.events rule.joined.events := by
  obtain ⟨id, body⟩ := rule
  cases body with
  | empty => exact joins_emptyTag _ _
  | phrase only => exact joins_element _ _ (joined_map_event only)
  | oneOf phrases => exact joins_element _ _ (joins_choice phrases).joined

/-- The events of a document after its declaration. -/
def Document.content (document : Document) : List Event :=
  [.startTag "grammar".toList rootAttributes] ++ document.rules.flatMap DocumentRule.events ++
    [.endTag "grammar".toList]

/-- Joining the words of a document joins the texts among its events. -/
theorem Document.joined_content (document : Document) :
    Event.joined document.content = document.joined.content :=
  (joins_element _ _ (Joins.flatMap joins_rule document.rules).joined).joined

/-! ### Documents as trees -/

/-- A part as a tree. -/
def Part.tree : Part → Tree
  | words text => .text text
  | ruleRef id => .emptyElement "ruleref".toList [("uri".toList, '#' :: id)]

/-- A phrase as an item of a choice. -/
def itemTree (phrase : Phrase) : Tree :=
  .element "item".toList [] (phrase.map Part.tree)

/-- A choice as a tree; one without phrases is an empty element. -/
def choiceTree : List Phrase → Tree
  | [] => .emptyElement "one-of".toList []
  | phrases => .element "one-of".toList [] (phrases.map itemTree)

/-- A rule as a tree: an empty element, an element with the one phrase in it, or an element
with a choice in it. -/
def DocumentRule.tree (rule : DocumentRule) : Tree :=
  match rule.body with
  | .empty => .emptyElement "rule".toList [("id".toList, rule.id)]
  | .phrase only => .element "rule".toList [("id".toList, rule.id)] (only.map Part.tree)
  | .oneOf phrases => .element "rule".toList [("id".toList, rule.id)] [choiceTree phrases]

/-- A document as a tree. -/
def Document.tree (document : Document) : Tree :=
  .element "grammar".toList rootAttributes (document.rules.map DocumentRule.tree)

/-- The events of a phrase build its parts, each event one of them. -/
theorem builds_phrase (phrase : Phrase) :
    Tree.Builds (phrase.map Part.event) (phrase.map Part.tree) := by
  rw [List.map_eq_flatMap]
  refine Tree.Builds.flatMap phrase fun part _ => ?_
  cases part with
  | words text => exact Tree.builds_text text
  | ruleRef id => exact Tree.builds_emptyTag _ _

/-- A phrase between the tags of an item builds the item. -/
theorem builds_item (phrase : Phrase) : Tree.Builds (itemEvents phrase) [itemTree phrase] :=
  (builds_phrase phrase).element _ _

/-- The items of a choice build the choice. Without items it is written as an empty element, and
built as one. -/
theorem builds_choice (phrases : List Phrase) :
    Tree.Builds (choiceEvents phrases) [choiceTree phrases] := by
  cases phrases with
  | nil => exact Tree.builds_emptyTag _ _
  | cons first others =>
    exact (Tree.Builds.flatMap (first :: others) fun phrase _ => builds_item phrase).element _ _

/-- A rule builds its element, with what its kind of body builds inside. -/
theorem builds_rule (rule : DocumentRule) : Tree.Builds rule.events [rule.tree] := by
  obtain ⟨id, body⟩ := rule
  cases body with
  | empty => exact Tree.builds_emptyTag _ _
  | phrase only => exact (builds_phrase only).element _ _
  | oneOf phrases => exact (builds_choice phrases).element _ _

/-- The events of a document build its tree and nothing else, wherever they stand. No condition is
needed: the tags of a document always match. -/
theorem Document.builds_content (document : Document) :
    Tree.Builds document.content [document.tree] :=
  (Tree.Builds.flatMap document.rules fun rule _ => builds_rule rule).element _ _

/-! ### Documents as they are written -/

/-- A tag without attributes can be read, if its name can. -/
theorem isTag_nil {name : Text} (h : IsName name) : Token.IsTag name [] :=
  ⟨h, List.forall_mem_nil _, List.nodup_nil⟩

/-- And one with a single attribute, if both names can. The value may be anything, since it is
escaped. -/
theorem isTag_singleton {name key : Text} (h : IsName name) (h' : IsName key) (value : Text) :
    Token.IsTag name [(key, value)] := by
  refine ⟨h, ?_, List.nodup_singleton _⟩
  intro entry hentry
  obtain rfl := List.mem_singleton.mp hentry
  exact h'

/-- What holds of the tags around an element and of what is in it holds of all its events. -/
theorem forall_mem_element {p : Event → Prop} {name : Text} {attributes : List (Text × Text)}
    {inner : List Event} (hstart : p (.startTag name attributes))
    (hinner : ∀ event ∈ inner, p event) (hend : p (.endTag name)) :
    ∀ event ∈ [.startTag name attributes] ++ inner ++ [.endTag name], p event := by
  rw [List.forall_mem_append, List.forall_mem_append]
  exact ⟨⟨List.forall_mem_singleton.mpr hstart, hinner⟩, List.forall_mem_singleton.mpr hend⟩

section Events

-- What holds of every tag that is no reference, if its names can be read.
variable {p : Event → Prop}
  (htag : ∀ event, event.IsPlain → event.isText = false → event.ruleRefId? = none → p event)
include htag

/-- What holds of such tags and of the parts of all phrases holds of the events of a choice. Its
tags are its own two and those of the items, or a single one if it has none. -/
theorem forall_mem_choice {phrases : List Phrase}
    (hparts : ∀ phrase ∈ phrases, ∀ part ∈ phrase, p part.event) :
    ∀ event ∈ choiceEvents phrases, p event := by
  have hitem : IsName "item".toList := ⟨by decide, by decide⟩
  have hchoice : IsName "one-of".toList := ⟨by decide, by decide⟩
  cases phrases with
  | nil => exact List.forall_mem_singleton.mpr (htag _ (isTag_nil hchoice) rfl rfl)
  | cons first others =>
    refine forall_mem_element (htag _ (isTag_nil hchoice) rfl rfl) ?_ (htag _ hchoice rfl rfl)
    intro event hevent
    obtain ⟨phrase, hphrase, hevent⟩ := List.mem_flatMap.mp hevent
    exact forall_mem_element (htag _ (isTag_nil hitem) rfl rfl)
      (List.forall_mem_map.mpr (hparts phrase hphrase)) (htag _ hitem rfl rfl) event hevent

/-- And of the events of a rule, which has no tags but its own and those of a choice. The id is a
value, so it may be any text. -/
theorem forall_mem_rule {rule : DocumentRule}
    (hparts : ∀ phrase ∈ rule.body.choices, ∀ part ∈ phrase, p part.event) :
    ∀ event ∈ rule.events, p event := by
  obtain ⟨id, body⟩ := rule
  have hrule : IsName "rule".toList := ⟨by decide, by decide⟩
  have hid : Token.IsTag "rule".toList [("id".toList, id)] :=
    isTag_singleton hrule ⟨by decide, by decide⟩ id
  cases body with
  | empty => exact List.forall_mem_singleton.mpr (htag _ hid rfl rfl)
  | phrase only =>
    have honly := hparts only (List.mem_singleton.mpr rfl)
    exact forall_mem_element (htag _ hid rfl rfl) (List.forall_mem_map.mpr honly)
      (htag _ hrule rfl rfl)
  | oneOf phrases =>
    exact forall_mem_element (htag _ hid rfl rfl) (forall_mem_choice htag hparts)
      (htag _ hrule rfl rfl)

/-- What holds of the other tags and of the parts of its phrases holds of all events of a
document. -/
theorem Document.forall_mem_content {document : Document}
    (hparts : ∀ rule ∈ document.rules, ∀ phrase ∈ rule.body.choices, ∀ part ∈ phrase,
      p part.event) :
    ∀ event ∈ document.content, p event := by
  have hroot : IsName "grammar".toList := ⟨by decide, by decide⟩
  have hattributes : Token.IsTag "grammar".toList rootAttributes := by
    refine ⟨hroot, ?_, by decide⟩
    intro entry hentry
    have hkeys : ∀ key ∈ rootAttributes.map Prod.fst, key ≠ [] ∧ key.all isNameChar = true := by
      decide
    obtain ⟨hne, hall⟩ := hkeys entry.1 (List.mem_map_of_mem hentry)
    exact ⟨hne, hall⟩
  refine forall_mem_element (htag _ hattributes rfl rfl) ?_ (htag _ hroot rfl rfl)
  intro event hevent
  obtain ⟨rule, hrule, hevent⟩ := List.mem_flatMap.mp hevent
  exact forall_mem_rule htag (hparts rule hrule) event hevent

end Events

/-- All names in a document can be read. -/
theorem Document.isPlain_content (document : Document) :
    ∀ event ∈ document.content, event.IsPlain := by
  refine forall_mem_content (fun _ hplain _ _ => hplain) fun _ _ _ _ part _ => ?_
  cases part with
  | words text => exact trivial
  | ruleRef id => exact isTag_singleton ⟨by decide, by decide⟩ ⟨by decide, by decide⟩ _

/-- The references among the events of a document are those in its phrases. No other tag is one,
which is what `forall_mem_content` is asked for. -/
theorem Document.exists_ruleRef_mem {document : Document} {id : Text}
    (h : id ∈ document.content.filterMap Event.ruleRefId?) :
    ∃ rule ∈ document.rules, ∃ phrase ∈ rule.body.choices, .ruleRef id ∈ phrase := by
  have hall : ∀ event ∈ document.content, ∀ id, event.ruleRefId? = some id →
      ∃ rule ∈ document.rules, ∃ phrase ∈ rule.body.choices, .ruleRef id ∈ phrase := by
    refine forall_mem_content ?_ ?_
    · intro event _ _ hnone id hid
      rw [hnone] at hid
      cases hid
    · intro rule hrule phrase hphrase part hpart id hid
      cases part with
      | words text => cases hid
      | ruleRef other =>
        obtain rfl : other = id := Option.some.inj hid
        exact ⟨rule, hrule, phrase, hphrase, hpart⟩
  obtain ⟨event, hevent, hid⟩ := List.mem_filterMap.mp h
  exact hall event hevent id hid

/-- A document whose words have no line breaks. -/
def Document.SingleLine (document : Document) : Prop :=
  ∀ rule ∈ document.rules, ∀ phrase ∈ rule.body.choices, ∀ text, .words text ∈ phrase → '\n' ∉ text

/-- The texts among the events of a document are the words of its phrases, so no text has a line
break where no words have one. -/
theorem Document.SingleLine.content {document : Document} (h : document.SingleLine) :
    ∀ text, Event.text text ∈ document.content → '\n' ∉ text := by
  have hall : ∀ event ∈ document.content, ∀ text, event = .text text → '\n' ∉ text := by
    refine forall_mem_content ?_ ?_
    · intro event _ htag _ text heq
      rw [heq] at htag
      cases htag
    · intro rule hrule phrase hphrase part hpart text heq
      cases part with
      | words words =>
        obtain rfl := Event.text.inj heq
        exact h rule hrule phrase hphrase words hpart
      | ruleRef id => cases heq
  exact fun text hmem => hall _ hmem text rfl

/-- A document without line breaks in its words is read plainly as the one tree that it is,
words in a row as one. -/
theorem Document.readAll?_encode_render {document : Document} (h : document.SingleLine) :
    Tree.readAll? (Text.encode document.render) = some [document.joined.tree] := by
  have hbuilds : Tree.Builds (Event.joined document.content) [document.joined.tree] := by
    rw [document.joined_content]
    exact document.joined.builds_content
  exact Tree.readAll?_encode_renderAll document.isPlain_content h.content hbuilds

end Speech

end TaskGrammar
