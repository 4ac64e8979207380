import TaskGrammar.Proofs.Speech.ReadBack

/-!
# `TaskGrammar.Proofs.Speech.Reading`: a document read as a grammar

A document is a grammar itself. It can be read in two ways. `Document.Says` goes through its
rules as they were made, phrase by phrase. `Tree.Says` goes through the elements that the
events of the document build, and knows of them no more than the names that the format gives
to rules, references, choices and items.

The elements allow for more than a document has: a choice between other parts of a phrase, a
choice inside an item. So a reading of elements says nothing about phrases by itself, and the
induction on it carries both shapes in which the elements of a document come, the parts of a
phrase and one choice on its own.

Which rule elements a reference may lead to is left open in `Tree.Says`. It may be any rule of
the id (`Tree.Means`) or the first one (`Tree.MeansFirst`).

* `says_of_tree` / `says_map_tree`: the elements of a phrase say what the phrase says.
* `derives_tree_iff`: the same texts can be derived from the rule elements of an id and from
  the rules of this id.
* `Document.buildsTree`: the events of a document build its tree.
-/

set_option autoImplicit false

namespace TaskGrammar

open TaskGrammar.Markup

/-! ### Reading elements -/

namespace Markup.Tree

/-- The attributes and the content of an element of a name, written as an empty one or not. -/
def element? (name : Text) : Tree → Option (List (Text × Text) × List Tree)
  | .text _ => none
  | .element other attributes children =>
    if other = name then some (attributes, children) else none
  | .emptyElement other attributes => if other = name then some (attributes, []) else none

/-- The id of a rule element. -/
def ruleId? (tree : Tree) : Option Text :=
  (tree.element? "rule".toList).bind fun rule => rule.1.lookup "id".toList

/-- The id that a reference to a rule of the same document has behind its hash. -/
def ruleRefId? (tree : Tree) : Option Text :=
  (tree.element? "ruleref".toList).bind fun reference =>
    match reference.1.lookup "uri".toList with
    | some ('#' :: id) => some id
    | _ => none

/-- What is in an element. -/
def children : Tree → List Tree
  | .element _ _ children => children
  | .emptyElement _ _ | .text _ => []

/-- The elements of a grammar element. -/
def rules (tree : Tree) : List Tree :=
  ((tree.element? "grammar".toList).map Prod.snd).getD []

/-- A reference to an id may lead to every rule element of this id. -/
def Means (grammar : Tree) (id : Text) (rule : Tree) : Prop :=
  rule ∈ grammar.rules ∧ rule.ruleId? = some id

/-- A reference to an id leads to the first rule element of this id. -/
def MeansFirst (grammar : Tree) (id : Text) (rule : Tree) : Prop :=
  grammar.rules.find? (fun rule => rule.ruleId? == some id) = some rule

/-- The texts that trees in a row can say: the texts among them, for each reference what is in
a rule that it may lead to, and for each choice what is in one of its items. A choice without
items says nothing, not even the empty text, which an empty rule says. -/
inductive Says (means : Text → Tree → Prop) : List Tree → Text → Prop
  | nil : Says means [] []
  | text {content later : Text} {rest : List Tree} (after : Says means rest later) :
      Says means (.text content :: rest) (content ++ later)
  | ruleRef {tree rule : Tree} {rest : List Tree} {id first later : Text}
      (refers : tree.ruleRefId? = some id) (meant : means id rule)
      (inner : Says means rule.children first) (after : Says means rest later) :
      Says means (tree :: rest) (first ++ later)
  | oneOf {tree item : Tree} {attributes itemAttributes : List (Text × Text)}
      {items content rest : List Tree} {first later : Text}
      (choice : tree.element? "one-of".toList = some (attributes, items)) (mem : item ∈ items)
      (isItem : item.element? "item".toList = some (itemAttributes, content))
      (inner : Says means content first) (after : Says means rest later) :
      Says means (tree :: rest) (first ++ later)

/-- The texts that can be derived from the rule elements of an id. -/
def Derives (means : Text → Tree → Prop) (id text : Text) : Prop :=
  ∃ rule, means id rule ∧ Says means rule.children text

end Markup.Tree

namespace Speech

/-! ### Reading phrases -/

/-- The texts that a phrase can say: its words, and for each reference a text that a
choice of a rule of this id can say. -/
inductive Document.Says (document : Document) : Phrase → Text → Prop
  | nil : Says document [] []
  | words {text later : Text} {rest : Phrase} (after : Says document rest later) :
      Says document (.words text :: rest) (text ++ later)
  | ruleRef {rule : DocumentRule} {phrase rest : Phrase} {first later : Text}
      (mem : rule ∈ document.rules) (chosen : phrase ∈ rule.body.choices)
      (inner : Says document phrase first) (after : Says document rest later) :
      Says document (.ruleRef rule.id :: rest) (first ++ later)

/-- The texts that can be derived from the rules of an id. -/
def Document.Derives (document : Document) (id text : Text) : Prop :=
  document.Says [.ruleRef id] text

/-- Phrases in a row say what they say one after the other. The induction is on how the first one
says its text, and goes along its parts. -/
theorem Document.Says.append {document : Document} {before after : Phrase} {first second : Text}
    (h : document.Says before first) (h' : document.Says after second) :
    document.Says (before ++ after) (first ++ second) := by
  induction h with
  | nil => exact h'
  | words _ ih =>
    rw [List.append_assoc]
    exact .words ih
  | ruleRef mem chosen inner _ _ ih =>
    rw [List.append_assoc]
    exact .ruleRef mem chosen inner ih

/-- A reference says what a choice of its rule says. -/
theorem Document.Says.derives {document : Document} {rule : DocumentRule} {phrase : Phrase}
    {text : Text} (h : document.Says phrase text) (mem : rule ∈ document.rules)
    (chosen : phrase ∈ rule.body.choices) : document.Derives rule.id text := by
  have hsays := Document.Says.ruleRef mem chosen h .nil
  rwa [List.append_nil] at hsays

/-- And a reference says nothing else. So whatever can be derived from an id comes from one phrase
of one rule, which is the step of the inductions below. -/
theorem Document.derives_iff {document : Document} {id text : Text} :
    document.Derives id text ↔ ∃ rule ∈ document.rules, rule.id = id ∧
      ∃ phrase ∈ rule.body.choices, document.Says phrase text := by
  constructor
  · rintro h
    cases h with
    | ruleRef mem chosen inner after =>
      cases after
      rw [List.append_nil]
      exact ⟨_, mem, rfl, _, chosen, inner⟩
  · rintro ⟨rule, mem, rfl, phrase, chosen, h⟩
    exact h.derives mem chosen

/-! ### The elements of a document -/

/-- The element of a rule has the id of the rule, as one tag or as two. -/
theorem ruleId?_tree (rule : DocumentRule) : rule.tree.ruleId? = some rule.id := by
  obtain ⟨id, body⟩ := rule
  cases body <;> rfl

/-- The rule elements of a document are those of its rules, in order. -/
theorem rules_tree (document : Document) :
    document.tree.rules = document.rules.map DocumentRule.tree :=
  rfl

/-- A reference to an id may lead to the elements of the rules of this id. The elements of a
document are those of its rules, so no others have to be looked at. -/
theorem means_tree_iff {document : Document} {id : Text} {tree : Tree} :
    document.tree.Means id tree ↔ ∃ rule ∈ document.rules, rule.id = id ∧ rule.tree = tree := by
  rw [Tree.Means, rules_tree, List.mem_map]
  constructor
  · rintro ⟨⟨rule, hrule, rfl⟩, hid⟩
    rw [ruleId?_tree] at hid
    exact ⟨rule, hrule, Option.some.inj hid, rfl⟩
  · rintro ⟨rule, hrule, rfl, rfl⟩
    exact ⟨⟨rule, hrule, rfl⟩, ruleId?_tree rule⟩

/-- What is in the element of a rule is a phrase or a choice, and what the one or the other says
is what a choice of the rule's body says. -/
theorem exists_choice_of_children {document : Document} {rule : DocumentRule} {text : Text}
    (hphrase : ∀ phrase : Phrase, rule.tree.children = phrase.map Part.tree →
      document.Says phrase text)
    (hchoice : ∀ phrases : List Phrase, rule.tree.children = [choiceTree phrases] →
      ∃ phrase ∈ phrases, document.Says phrase text) :
    ∃ phrase ∈ rule.body.choices, document.Says phrase text := by
  obtain ⟨id, body⟩ := rule
  cases body with
  | empty => exact ⟨[], List.mem_singleton.mpr rfl, hphrase [] rfl⟩
  | phrase only => exact ⟨only, List.mem_singleton.mpr rfl, hphrase only rfl⟩
  | oneOf phrases => exact hchoice phrases rfl

/-- The element of a choice has the items of its phrases, and is not taken for a reference. -/
theorem element?_choiceTree (phrases : List Phrase) :
    (choiceTree phrases).element? "one-of".toList = some ([], phrases.map itemTree) ∧
      (choiceTree phrases).ruleRefId? = none := by
  cases phrases <;> exact ⟨rfl, rfl⟩

/-- Conversely, what the elements of such a choice say is said by what is in the element of the
rule. -/
theorem says_children {means : Text → Tree → Prop} {rule : DocumentRule} {phrase : Phrase}
    (hphrase : phrase ∈ rule.body.choices) {text : Text}
    (h : Tree.Says means (phrase.map Part.tree) text) :
    Tree.Says means rule.tree.children text := by
  obtain ⟨id, body⟩ := rule
  cases body with
  | empty =>
    obtain rfl := List.mem_singleton.mp hphrase
    exact h
  | phrase only =>
    obtain rfl := List.mem_singleton.mp hphrase
    exact h
  | oneOf phrases =>
    have hsays := Tree.Says.oneOf (element?_choiceTree phrases).1 (List.mem_map_of_mem hphrase)
      rfl h .nil
    rwa [List.append_nil] at hsays

section Elements

-- `document` has the rules whose elements a reference may lead to. This is the document
-- itself, or what is left of it when only the first rule of each id is meant.
variable {document : Document} {means : Text → Tree → Prop}
  (hmeans : ∀ {id : Text} {tree : Tree},
    means id tree ↔ ∃ rule ∈ document.rules, rule.id = id ∧ rule.tree = tree)

include hmeans

/-- The elements of a phrase say no more than the phrase, and the element of a choice no more
than one of its phrases. Both are proved in one induction, since what a reference leads to is
the one or the other. -/
theorem says_of_tree {trees : List Tree} {text : Text} (h : Tree.Says means trees text) :
    (∀ phrase : Phrase, trees = phrase.map Part.tree → document.Says phrase text) ∧
      ∀ phrases : List Phrase, trees = [choiceTree phrases] →
        ∃ phrase ∈ phrases, document.Says phrase text := by
  induction h with
  | nil =>
    refine ⟨fun phrase htrees => ?_, fun phrases htrees => nomatch htrees⟩
    rw [List.map_eq_nil_iff.mp htrees.symm]
    exact .nil
  | text after ih =>
    constructor
    · intro phrase htrees
      obtain ⟨part, rest, rfl, hpart, rfl⟩ := List.map_eq_cons_iff.mp htrees.symm
      cases part with
      | words text =>
        cases hpart
        exact .words (ih.1 rest rfl)
      | ruleRef id => cases hpart
    · intro phrases htrees
      cases phrases <;> cases htrees
  | ruleRef refers meant inner after ihinner ih =>
    constructor
    · intro phrase htrees
      obtain ⟨part, rest, rfl, rfl, rfl⟩ := List.map_eq_cons_iff.mp htrees.symm
      cases part with
      | words text => cases refers
      | ruleRef id =>
        cases refers
        obtain ⟨rule, hrule, rfl, rfl⟩ := hmeans.mp meant
        obtain ⟨chosen, hchosen, hsays⟩ := exists_choice_of_children ihinner.1 ihinner.2
        exact .ruleRef hrule hchosen hsays (ih.1 rest rfl)
    · intro phrases htrees
      obtain ⟨rfl, -⟩ := List.cons.inj htrees
      rw [(element?_choiceTree phrases).2] at refers
      cases refers
  | oneOf choice mem isItem inner after ihinner ih =>
    constructor
    · intro phrase htrees
      obtain ⟨part, rest, -, rfl, -⟩ := List.map_eq_cons_iff.mp htrees.symm
      cases part <;> cases choice
    · intro phrases htrees
      obtain ⟨rfl, rfl⟩ := List.cons.inj htrees
      rw [(element?_choiceTree phrases).1] at choice
      obtain ⟨rfl, rfl⟩ := Prod.mk.inj (Option.some.inj choice)
      obtain ⟨phrase, hphrase, rfl⟩ := List.mem_map.mp mem
      cases isItem
      -- Nothing stands behind the choice.
      cases after
      rw [List.append_nil]
      exact ⟨phrase, hphrase, ihinner.1 phrase rfl⟩

/-- The elements of a phrase say what the phrase says. -/
theorem says_map_tree {phrase : Phrase} {text : Text} (h : document.Says phrase text) :
    Tree.Says means (phrase.map Part.tree) text := by
  induction h with
  | nil => exact .nil
  | words after ih => exact .text ih
  | ruleRef mem chosen inner after ihinner ih =>
    exact .ruleRef rfl (hmeans.mpr ⟨_, mem, rfl, rfl⟩) (says_children chosen ihinner) ih

/-- The same texts can be derived from the rule elements of an id and from the rules of this
id. -/
theorem derives_tree_iff {id text : Text} :
    Tree.Derives means id text ↔ document.Derives id text := by
  rw [Document.derives_iff]
  constructor
  · rintro ⟨tree, hmeant, hsays⟩
    obtain ⟨rule, hrule, hid, rfl⟩ := hmeans.mp hmeant
    have hboth := says_of_tree hmeans hsays
    exact ⟨rule, hrule, hid, exists_choice_of_children hboth.1 hboth.2⟩
  · rintro ⟨rule, hrule, hid, phrase, hphrase, hsays⟩
    exact ⟨rule.tree, hmeans.mpr ⟨rule, hrule, hid, rfl⟩,
      says_children hphrase (says_map_tree hmeans hsays)⟩

end Elements

/-- The tree that the events of a document build. They are written after its declaration. -/
def Document.BuildsTree (document : Document) (tree : Tree) : Prop :=
  ∃ events, document.events = .declaration :: events ∧ Tree.build? [] [] events = some [tree]

/-- The events of a document build its tree. No condition is needed, as a document has no tags but
those of its rules. -/
theorem Document.buildsTree (document : Document) : document.BuildsTree document.tree :=
  ⟨document.content, rfl, document.builds_content.build?⟩

end Speech

end TaskGrammar
