import TaskGrammar.Markup.Node
import TaskGrammar.Proofs.Markup.Tree

/-!
# `TaskGrammar.Proofs.Markup.Elements`: from trees to nodes and back

A tree is written with no more than its tags and texts, so a writer decides on the blanks between
the tags by putting texts of blanks into the tree. The reader of nodes sees a run of text between
any two tags, be it an empty one, and it cannot tell where one text of the tree ends and the next
one starts. `Tree.nodesFrom` says which nodes that makes: it gathers what is written of the texts up
to the next tag.

* `IsEscape`: ways to write the characters of a text; `isEscape_escapeInText` is one.
* `Node.read?_tokens_renderAll`: the children of an element are read as their nodes.
* `Document.ofText?_render`: a document is read as the nodes of its root, whatever comes after it.
-/

set_option autoImplicit false

namespace TaskGrammar.Markup

/-! ### Characters -/

/-- A way to write the characters of a text: what is written is resolved to the character, it starts
no tag, and blanks are written as they are and nothing else as a blank. -/
structure IsEscape (escape : Char → Text) : Prop where
  resolves : ∀ c rest,
    resolveFrom? none (escape c ++ rest) = (resolveFrom? none rest).map (c :: ·)
  noTag : ∀ c, '<' ∉ escape c
  ofBlank : ∀ c, isBlank c = true → escape c = [c]
  visible : ∀ c, isBlank c = false → ∀ d ∈ escape c, isBlank d = false

/-- A character that is no blank is written without blanks. Each escape is checked by itself, and
any other character is written as it is. -/
theorem any_isBlank_escapeInText {c : Char} (hc : isBlank c = false) :
    (escapeInText c).any isBlank = false := by
  unfold escapeInText
  split
  · decide
  · decide
  · decide
  · rw [List.any_cons, hc, List.any_nil, Bool.or_false]

/-- The escapes of the writer are a way to write texts in the sense above. So whatever holds of
all of these ways holds of the documents that are written here. -/
theorem isEscape_escapeInText : IsEscape escapeInText where
  resolves := resolveFrom?_escapeInText
  noTag c := by
    have hall := notMem_escapeInText [c]
    rwa [List.flatMap_singleton] at hall
  ofBlank c hc := by
    unfold escapeInText
    split
    · revert hc; decide
    · revert hc; decide
    · revert hc; decide
    · rfl
  visible c hc d hd :=
    eq_false_of_ne_true (List.any_eq_false.mp (any_isBlank_escapeInText hc) d hd)

namespace IsEscape

variable {escape : Char → Text} (h : IsEscape escape)
include h

/-- What is written for a text is resolved to this text. -/
theorem resolve?_flatMap (t : Text) : resolve? (t.flatMap escape) = some t :=
  Markup.resolve?_flatMap h.resolves t

/-- No text starts a tag where it is written, so a text ends where the next tag starts. -/
theorem notMem_flatMap (t : Text) : '<' ∉ t.flatMap escape := by
  rw [List.mem_flatMap]
  rintro ⟨c, -, hc⟩
  exact h.noTag c hc

/-- Blanks are written as they are. -/
theorem flatMap_of_all_isBlank {t : Text} (ht : t.all isBlank = true) : t.flatMap escape = t := by
  induction t with
  | nil => rfl
  | cons c t ih =>
    rw [List.all_cons, Bool.and_eq_true] at ht
    rw [List.flatMap_cons, h.ofBlank c ht.1, ih ht.2, List.singleton_append]

/-- Every character is written by some character, since what is written for it is resolved to it.
So no text but the empty one is written as nothing. -/
theorem ne_nil (c : Char) : escape c ≠ [] := by
  intro hnil
  have hresolved := h.resolves c []
  rw [hnil] at hresolved
  cases hresolved

end IsEscape

/-! ### Trees as text, and as nodes -/

namespace Tree

open Event

/-- Lists of trees are taken apart one tree at a time, each with its children. Trees hold lists of
trees, and this is the induction that does not need a second statement for those. -/
@[elab_as_elim]
theorem list_induction {motive : List Tree → Prop} (nil : motive [])
    (text : ∀ content rest, motive rest → motive (.text content :: rest))
    (element : ∀ name attributes children rest, motive children → motive rest →
      motive (.element name attributes children :: rest))
    (emptyElement : ∀ name attributes rest, motive rest →
      motive (.emptyElement name attributes :: rest)) :
    ∀ trees, motive trees
  | [] => nil
  | .text content :: rest =>
    text content rest (list_induction nil text element emptyElement rest)
  | .element name attributes children :: rest =>
    element name attributes children rest
      (list_induction nil text element emptyElement children)
      (list_induction nil text element emptyElement rest)
  | .emptyElement name attributes :: rest =>
    emptyElement name attributes rest (list_induction nil text element emptyElement rest)

mutual

/-- A tree as it is written. -/
def render (escape : Char → Text) : Tree → Text
  | .text content => content.flatMap escape
  | .element name attributes children =>
    (startTag name attributes).render ++ renderAll escape children ++ (endTag name).render
  | .emptyElement name attributes => (emptyTag name attributes).render

/-- Trees as they are written one after the other. -/
def renderAll (escape : Char → Text) : List Tree → Text
  | [] => []
  | tree :: rest => tree.render escape ++ renderAll escape rest

end

mutual

/-- The tags of a tree, with their attributes. -/
def tags : Tree → List (Text × List (Text × Text))
  | .text _ => []
  | .element name attributes children => (name, attributes) :: tagsAll children
  | .emptyElement name attributes => [(name, attributes)]

/-- The tags of trees. -/
def tagsAll : List Tree → List (Text × List (Text × Text))
  | [] => []
  | tree :: rest => tree.tags ++ tagsAll rest

end

/-- The run of text that is read where `raw` is written. -/
def runOf (raw : Text) : Run :=
  if raw = [] then [] else [.data raw]

/-- A run has one piece at most, so it is the same from both ends. The reader gathers pieces from
the last to the first. -/
@[simp]
theorem reverse_runOf (raw : Text) : (runOf raw).reverse = runOf raw := by
  unfold runOf
  split <;> rfl

mutual

/-- The children of an element as nodes. An empty tag has none, not even an empty run. -/
def nodes (escape : Char → Text) : Tree → List Node
  | .text _ => []
  | .element _ _ children => nodesFrom escape [] children
  | .emptyElement _ _ => []

/-- The nodes that are read where trees are written, up to the end tag after them. `pending` is
what is written before them, after the last tag. -/
def nodesFrom (escape : Char → Text) (pending : Text) : List Tree → List Node
  | [] => [.text (runOf pending)]
  | .text content :: rest => nodesFrom escape (pending ++ content.flatMap escape) rest
  | .element name attributes children :: rest =>
    .text (runOf pending) :: .element name (attributes.flatMap renderAttribute)
      (nodes escape (.element name attributes children)) :: nodesFrom escape [] rest
  | .emptyElement name attributes :: rest =>
    .text (runOf pending) :: .element name (attributes.flatMap renderAttribute)
      (nodes escape (.emptyElement name attributes)) :: nodesFrom escape [] rest

end

end Tree

/-! ### Reading -/

namespace OpenElement

/-- An open element after some more nodes have been read in it. Its last run of text may still be
open. -/
structure Gains (before : OpenElement) (nodes : List Node) (after : OpenElement) : Prop where
  name : after.name = before.name
  attributes : after.attributes = before.attributes
  children : after.endRun.children = nodes.reverse ++ before.children

end OpenElement

namespace Node

open Event Markup.Tree

variable {escape : Char → Text}

/-- A text before a tag is the run at hand when the tag comes. An empty text gives no token at
all, and the run stays as it was. -/
theorem read?_tokens_append {inner : OpenElement} (hrun : inner.run = []) {raw : Text}
    (hraw : '<' ∉ raw) (outer : List OpenElement) {rest : Text} (hrest : rest.head? = some '<') :
    read? (inner :: outer) (Token.tokens (raw ++ rest))
      = read? ({ inner with run := runOf raw } :: outer) (Token.tokens rest) := by
  by_cases hnil : raw = []
  · subst hnil
    obtain ⟨name, attributes, children, run⟩ := inner
    subst hrun
    rfl
  · have hscan : Token.scan? (raw ++ rest) = some (.data raw, rest) :=
      Token.scan?_data hnil hraw fun c hc => Option.some.inj (hc.symm.trans hrest)
    rw [Event.tokens_of_scan? hscan, read?, OpenElement.addPiece, hrun, runOf, if_neg hnil]

/-- An end tag ends the element that has gained its children. If no other element is open, the
element is the root and reading ends with it, whatever follows. -/
theorem read?_endTag {name raw : Text} (hname : IsName name) {nodes : List Node}
    {element : OpenElement} (h : (OpenElement.ofTag name raw).Gains nodes element)
    (outer : List OpenElement) (rest : Text) :
    read? (element :: outer) (Token.tokens ((endTag name).render ++ rest)) =
      match outer with
      | [] => some (.element name raw nodes)
      | parent :: outer =>
        read? (parent.addChild (.element name raw nodes) :: outer) (Token.tokens rest) := by
  have hclose : element.close = .element name raw nodes := by
    rw [OpenElement.close, h.children, h.name, h.attributes]
    simp [OpenElement.ofTag]
  have hsame : name = element.name := h.name.symm
  rw [Event.tokens_of_scan? (Token.scan?_endTag hname rest)]
  cases outer with
  | nil => rw [read?, if_pos hsame, hclose]
  | cons parent outer => rw [read?, if_pos hsame, hclose]

/-- Before a tag the run at hand is ended, and after an element there is no run yet. -/
theorem gains_addChild {inner element : OpenElement} {pending : Text} {child : Node}
    {nodes : List Node}
    (h : (({ inner with run := runOf pending } : OpenElement).addChild child).Gains nodes element) :
    inner.Gains (.text (runOf pending) :: child :: nodes) element := by
  refine ⟨h.name, h.attributes, ?_⟩
  rw [h.children]
  simp [OpenElement.addChild, OpenElement.endRun]

/-- Trees are read as their nodes, up to the tag after them. The induction is on the trees, as the
nodes are gathered: what is pending has not been read yet. -/
theorem read?_tokens_renderAll (hescape : IsEscape escape) (pending : Text) (trees : List Tree)
    (hpending : '<' ∉ pending) (htags : ∀ tag ∈ tagsAll trees, Token.IsTag tag.1 tag.2)
    (inner : OpenElement) (hrun : inner.run = []) (outer : List OpenElement) (rest : Text)
    (hrest : rest.head? = some '<') :
    ∃ element, inner.Gains (nodesFrom escape pending trees) element ∧
      read? (inner :: outer) (Token.tokens (pending ++ Tree.renderAll escape trees ++ rest))
        = read? (element :: outer) (Token.tokens rest) := by
  induction trees using Tree.list_induction generalizing pending inner outer rest with
  | nil =>
    refine ⟨{ inner with run := runOf pending }, ⟨rfl, rfl, ?_⟩, ?_⟩
    · simp [OpenElement.endRun, nodesFrom]
    · rw [Tree.renderAll, List.append_nil]
      exact read?_tokens_append hrun hpending outer hrest
  | text content later ih =>
    have hmore : '<' ∉ pending ++ content.flatMap escape := fun hmem =>
      (List.mem_append.mp hmem).elim hpending (hescape.notMem_flatMap content)
    -- A text is not read yet. It is pending with what was pending before it.
    rw [Tree.renderAll, Tree.render, ← List.append_assoc, nodesFrom]
    exact ih _ hmore htags inner hrun outer rest hrest
  | element name attributes children later ihchildren ihlater =>
    rw [tagsAll, tags, List.forall_mem_append, List.forall_mem_cons] at htags
    obtain ⟨⟨htag, hchildren⟩, hlater⟩ := htags
    -- The run before the tag, the tag, the children, their end tag, and what follows.
    have hsource : pending ++ Tree.renderAll escape (.element name attributes children :: later)
          ++ rest
        = pending ++ ((startTag name attributes).render ++ ([] ++ Tree.renderAll escape children ++
            ((endTag name).render ++ ([] ++ Tree.renderAll escape later ++ rest)))) := by
      simp only [Tree.renderAll, Tree.render, List.append_assoc, List.nil_append]
    obtain ⟨element, hgains, hread⟩ := ihchildren [] List.not_mem_nil hchildren
      (.ofTag name (attributes.flatMap renderAttribute)) rfl
      ({ inner with run := runOf pending } :: outer)
      ((endTag name).render ++ ([] ++ Tree.renderAll escape later ++ rest)) rfl
    obtain ⟨last, hgains', hread'⟩ := ihlater [] List.not_mem_nil hlater
      (({ inner with run := runOf pending } : OpenElement).addChild _) rfl outer rest hrest
    refine ⟨last, gains_addChild hgains', ?_⟩
    rw [hsource, read?_tokens_append hrun hpending outer rfl,
      Event.tokens_of_scan? (Token.scan?_startTag htag _), read?, hread,
      read?_endTag htag.name hgains]
    exact hread'
  | emptyElement name attributes later ih =>
    rw [tagsAll, tags, List.forall_mem_append, List.forall_mem_singleton] at htags
    have hsource : pending ++ Tree.renderAll escape (.emptyElement name attributes :: later) ++ rest
        = pending ++ ((emptyTag name attributes).render ++
            ([] ++ Tree.renderAll escape later ++ rest)) := by
      simp only [Tree.renderAll, Tree.render, List.append_assoc, List.nil_append]
    obtain ⟨last, hgains, hread⟩ := ih [] List.not_mem_nil htags.2
      (({ inner with run := runOf pending } : OpenElement).addChild _) rfl outer rest hrest
    refine ⟨last, gains_addChild hgains, ?_⟩
    rw [hsource, read?_tokens_append hrun hpending outer rfl,
      Event.tokens_of_scan? (Token.scan?_emptyTag htags.1 _), read?]
    exact hread

end Node

/-! ### Documents -/

/-- The tag that a tree starts with, if it is no text. -/
def Tree.tag? : Tree → Option (Text × List (Text × Text))
  | .text _ => none
  | .element name attributes _ => some (name, attributes)
  | .emptyElement name attributes => some (name, attributes)

/-- A document, perhaps with a declaration. There may be blanks before the root and anything after
it. -/
structure Document where
  isDeclared : Bool
  blanks : Text
  all_isBlank : blanks.all isBlank = true
  root : Tree
  rest : Text

namespace Document

open Event

variable {escape : Char → Text}

/-- A document as it is written. -/
def render (escape : Char → Text) (document : Document) : Text :=
  (if document.isDeclared then declaration.render else []) ++ document.blanks ++
    document.root.render escape ++ document.rest

/-- A root starts with a bracket, be it an element or an empty one. -/
theorem head?_render_root {root : Tree} {name : Text} {attributes : List (Text × Text)}
    (hroot : root.tag? = some (name, attributes)) (rest : Text) :
    (root.render escape ++ rest).head? = some '<' := by
  cases root with
  | text content => cases hroot
  | element name attributes children => rfl
  | emptyElement name attributes => rfl

/-- No document starts with a byte order mark of its own, which a reader of documents would take
away. It starts with a declaration, a blank or a tag. -/
theorem head?_render_ne (document : Document) {name : Text} {attributes : List (Text × Text)}
    (hroot : document.root.tag? = some (name, attributes)) :
    (document.render escape).head? ≠ some Node.byteOrderMark := by
  obtain ⟨isDeclared, blanks, hblanks, root, rest⟩ := document
  unfold render
  cases isDeclared with
  | true => exact fun hhead => absurd (Option.some.inj hhead) (by decide)
  | false =>
    cases blanks with
    | nil =>
      intro hhead
      have hopen : (root.render escape ++ rest).head? = some '<' := head?_render_root hroot rest
      exact absurd (Option.some.inj (hopen.symm.trans hhead)) (by decide)
    | cons c blanks =>
      intro hhead
      rw [List.all_cons, Bool.and_eq_true] at hblanks
      have hmark : c = Node.byteOrderMark := Option.some.inj hhead
      rw [hmark] at hblanks
      exact absurd hblanks.1 (by decide)

/-- What comes before the root is passed over: a declaration is no node, and blanks outside of
every element are none either. -/
theorem read?_tokens_render (document : Document) {name : Text} {attributes : List (Text × Text)}
    (hroot : document.root.tag? = some (name, attributes)) :
    Node.read? [] (Token.tokens (document.render escape))
      = Node.read? [] (Token.tokens (document.root.render escape ++ document.rest)) := by
  obtain ⟨isDeclared, blanks, hblanks, root, rest⟩ := document
  have hhead : (root.render escape ++ rest).head? = some '<' := head?_render_root hroot rest
  have hskip : Node.read? [] (Token.tokens (blanks ++ (root.render escape ++ rest)))
      = Node.read? [] (Token.tokens (root.render escape ++ rest)) := by
    by_cases hnil : blanks = []
    · rw [hnil, List.nil_append]
    · have hopen : '<' ∉ blanks := fun hmem =>
        absurd (List.all_eq_true.mp hblanks _ hmem) (by decide)
      have hscan : Token.scan? (blanks ++ (root.render escape ++ rest))
          = some (.data blanks, root.render escape ++ rest) :=
        Token.scan?_data hnil hopen fun c hc => Option.some.inj (hc.symm.trans hhead)
      rw [tokens_of_scan? hscan, Node.read?, if_pos hblanks]
  unfold render
  cases isDeclared with
  | false => simpa using hskip
  | true =>
    have hscan := Token.scan?_declaration (blanks ++ (root.render escape ++ rest))
    rw [if_pos rfl, List.append_assoc, List.append_assoc, tokens_of_scan? hscan, Node.read?]
    exact hskip

/-- A document is read as its root, whatever comes after that. The root is an element or one tag,
and both are read as an element with the nodes that the tree has. -/
theorem ofText?_render (hescape : IsEscape escape) (document : Document) {name : Text}
    {attributes : List (Text × Text)} (hroot : document.root.tag? = some (name, attributes))
    (htags : ∀ tag ∈ document.root.tags, Token.IsTag tag.1 tag.2) :
    Node.ofText? (document.render escape)
      = some (.element name (attributes.flatMap renderAttribute) (document.root.nodes escape)) := by
  rw [Node.ofText?, if_neg (head?_render_ne document hroot), read?_tokens_render document hroot]
  obtain ⟨isDeclared, blanks, hblanks, root, rest⟩ := document
  cases root with
  | text content => cases hroot
  | element name' attributes' children =>
    obtain ⟨rfl, rfl⟩ := Prod.mk.inj (Option.some.inj hroot)
    dsimp only at htags ⊢
    rw [Tree.tags, List.forall_mem_cons] at htags
    -- The start tag opens the root, its children are gathered in it, and its end tag closes it.
    obtain ⟨element, hgains, hread⟩ := Node.read?_tokens_renderAll hescape [] children
      List.not_mem_nil htags.2 (.ofTag name' (attributes'.flatMap renderAttribute)) rfl []
      ((endTag name').render ++ rest) rfl
    have hsource : (Tree.element name' attributes' children).render escape ++ rest
        = (startTag name' attributes').render ++
            ([] ++ Tree.renderAll escape children ++ ((endTag name').render ++ rest)) := by
      simp only [Tree.render, List.append_assoc, List.nil_append]
    rw [hsource, tokens_of_scan? (Token.scan?_startTag htags.1 _), Node.read?, hread,
      Node.read?_endTag htags.1.name hgains, Tree.nodes]
  | emptyElement name' attributes' =>
    obtain ⟨rfl, rfl⟩ := Prod.mk.inj (Option.some.inj hroot)
    dsimp only at htags ⊢
    rw [Tree.tags, List.forall_mem_singleton] at htags
    rw [Tree.render, tokens_of_scan? (Token.scan?_emptyTag htags rest), Node.read?, Tree.nodes]

end Document

end TaskGrammar.Markup
