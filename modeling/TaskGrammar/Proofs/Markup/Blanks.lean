import TaskGrammar.Proofs.Markup.Elements
import TaskGrammar.Proofs.Text.Lines

/-!
# `TaskGrammar.Proofs.Markup.Blanks`: trees and their layout

Whoever writes a document may put blanks between its tags, and may write an element without
children as one tag or as two. `Tree.withoutLayout` undoes that: trees that are the same without
their layout are the same document, laid out in different ways. The nodes that a reader sees still
have the blanks in them, so each lemma here says where they are.

* `Tree.tags_withoutLayout`: the layout has no tags.
* `Tree.exists_nodesFrom`: the nodes of trees start with a run of blanks; `_of_nil`, `_of_text` and
  `_of_tag?` say what comes then, if nothing, one text, or an element first is left without the
  layout.
* `Tree.trim_runOf`: a text is left when the blanks around it are trimmed away.
* `Tree.IsTight`: trees without any layout, so that each tree is one way to lay it out.
-/

set_option autoImplicit false

namespace TaskGrammar.Markup

open Event

/-! ### Texts between blanks -/

/-- The blanks of markup are blanks. There are more blanks than these four, so a text that is
trimmed starts and ends with no blank of markup. -/
theorem isBlank_of_isBlank {c : Char} (h : isBlank c = true) : Text.isBlank c = true := by
  simp only [isBlank, Bool.or_eq_true, beq_iff_eq] at h
  rcases h with ((rfl | rfl) | rfl) | rfl <;> decide

/-- What is written of a text starts with a blank only if the text does. It is stated for any way
to write characters, since below the same is needed of texts read from their end. -/
theorem isBlank_head?_flatMap {g : Char → Text} (hne : ∀ c, g c ≠ [])
    (hvisible : ∀ c, isBlank c = false → ∀ d ∈ g c, isBlank d = false) {t : Text}
    (ht : ∀ c, t.head? = some c → isBlank c = false) :
    ∀ d, (t.flatMap g).head? = some d → isBlank d = false := by
  intro d hd
  cases t with
  | nil => cases hd
  | cons c t =>
    refine hvisible c (ht c rfl) d ?_
    obtain ⟨first, tail, hfirst⟩ := List.exists_cons_of_ne_nil (hne c)
    rw [List.flatMap_cons, hfirst] at hd
    rw [hfirst, ← Option.some.inj hd]
    exact List.mem_cons_self

namespace IsEscape

variable {escape : Char → Text} (h : IsEscape escape)
include h

/-- Blanks around a trimmed text are trimmed away from what is written of it, and nothing more.
Here it counts that blanks are written as they are and nothing else is written as a blank. -/
theorem trimWhile_flatMap {before content after : Text} (hbefore : before.all isBlank = true)
    (hafter : after.all isBlank = true) (hcontent : Text.trim content = content) :
    Text.trimWhile isBlank (before ++ content.flatMap escape ++ after)
      = content.flatMap escape := by
  have hblank : ∀ c, Text.isBlank c = false → isBlank c = false := by
    intro c hc
    cases hmarkup : isBlank c with
    | false => rfl
    | true => exact absurd (hc.symm.trans (isBlank_of_isBlank hmarkup)) (by decide)
  obtain ⟨hstart, hend⟩ := Text.trim_eq_self_iff.mp hcontent
  refine Text.trimWhile_append hbefore hafter ?_ ?_
  · exact isBlank_head?_flatMap h.ne_nil h.visible fun c hc => hblank c (hstart c hc)
  · -- Read from the end, a text is written with each of its characters the other way round.
    intro d hd
    rw [← List.head?_reverse, List.reverse_flatMap] at hd
    refine isBlank_head?_flatMap (fun c hnil => h.ne_nil c (List.reverse_eq_nil_iff.mp hnil))
      (fun c hc d hd => h.visible c hc d (List.mem_reverse.mp hd)) ?_ d hd
    intro c hc
    exact hblank c (hend c (List.head?_reverse ▸ hc))

end IsEscape

namespace Tree

/-- Where nothing is written there is no piece, not an empty one. -/
@[simp]
theorem runOf_nil : runOf [] = [] :=
  rfl

/-- Trimming a run is trimming what was written. A run that was nothing but blanks loses its
piece. -/
theorem trimStart_runOf (raw : Text) : (runOf raw).trimStart = runOf (raw.dropWhile isBlank) := by
  by_cases hraw : raw = []
  · rw [hraw]
    rfl
  · rw [runOf, if_neg hraw, Run.trimStart]
    split
    · rename_i hnil
      rw [hnil]
      rfl
    · rename_i hne
      rw [runOf, if_neg hne]

/-- At its end a run is trimmed in the same way. -/
theorem trimEnd_runOf (raw : Text) :
    (runOf raw).trimEnd = runOf (Text.dropEndWhile isBlank raw) := by
  by_cases hraw : raw = []
  · rw [hraw]
    rfl
  · rw [runOf, if_neg hraw, Run.trimEnd]
    split
    · rename_i hnil
      rw [hnil]
      rfl
    · rename_i hne
      rw [runOf, if_neg hne]

/-- So a run is trimmed on both sides by trimming what was written on both sides. -/
theorem trimEnd_trimStart_runOf (raw : Text) :
    (runOf raw).trimStart.trimEnd = runOf (Text.trimWhile isBlank raw) := by
  rw [trimStart_runOf, trimEnd_runOf, Text.trimWhile]

/-- A run means what its only piece is resolved to, and no run means the empty text. -/
theorem text?_runOf (raw : Text) : (runOf raw).text? = resolve? raw := by
  by_cases hraw : raw = []
  · rw [hraw]
    rfl
  · rw [runOf, if_neg hraw, Run.text?, List.mapM_cons, List.mapM_nil, Piece.text?]
    cases resolve? raw <;> simp

/-- A text with blanks around it is trimmed to what is written of it, and means the text. So the
layout that stands next to a text does not become part of it. -/
theorem trim_runOf {escape : Char → Text} (hescape : IsEscape escape) {before content after : Text}
    (hbefore : before.all isBlank = true) (hafter : after.all isBlank = true) (hne : content ≠ [])
    (htrim : Text.trim content = content) :
    ∃ raw, (runOf (before ++ content.flatMap escape ++ after)).trimStart.trimEnd = [.data raw] ∧
      Run.text? [.data raw] = some content := by
  have hraw : content.flatMap escape ≠ [] := by
    obtain ⟨c, tail, rfl⟩ := List.exists_cons_of_ne_nil hne
    rw [List.flatMap_cons]
    exact List.append_ne_nil_of_left_ne_nil (hescape.ne_nil c) _
  have hrun : runOf (content.flatMap escape) = [.data (content.flatMap escape)] := if_neg hraw
  refine ⟨content.flatMap escape, ?_, ?_⟩
  · rw [trimEnd_trimStart_runOf, hescape.trimWhile_flatMap hbefore hafter htrim, hrun]
  · rw [← hrun, text?_runOf, hescape.resolve?_flatMap]

/-! ### Trees without their layout -/

/-- Whether a tree is a text of blanks. -/
def isLayout : Tree → Bool
  | .text content => content.all isBlank
  | .element _ _ _ => false
  | .emptyElement _ _ => false

mutual

/-- A tree without the blanks between its tags. An empty tag is an element without children. -/
def withoutLayout : Tree → Tree
  | .text content => .text content
  | .element name attributes children => .element name attributes (withoutLayoutAll children)
  | .emptyElement name attributes => .element name attributes []

/-- Trees without the blanks between them and in them. -/
def withoutLayoutAll : List Tree → List Tree
  | [] => []
  | tree :: rest =>
    if tree.isLayout then withoutLayoutAll rest else tree.withoutLayout :: withoutLayoutAll rest

end

/-- A tree starts with the same tag without its layout, even one that is written as one tag. -/
theorem tag?_withoutLayout (tree : Tree) : tree.withoutLayout.tag? = tree.tag? := by
  cases tree <;> simp only [withoutLayout, tag?]

/-- The layout of trees has no tags. Hence whatever is asked of the tags of a document can be
asked of the document without its layout. -/
theorem tagsAll_withoutLayoutAll (trees : List Tree) :
    tagsAll (withoutLayoutAll trees) = tagsAll trees := by
  induction trees using Tree.list_induction with
  | nil => rfl
  | text content rest ih =>
    rw [withoutLayoutAll]
    split
    · rw [ih, tagsAll, tags, List.nil_append]
    · rw [tagsAll, tagsAll, withoutLayout, ih]
  | element name attributes children rest ihchildren ihrest =>
    rw [withoutLayoutAll, isLayout, if_neg Bool.false_ne_true, tagsAll, tagsAll, withoutLayout,
      tags, tags, ihchildren, ihrest]
  | emptyElement name attributes rest ih =>
    rw [withoutLayoutAll, isLayout, if_neg Bool.false_ne_true, tagsAll, tagsAll, withoutLayout,
      tags, tags, tagsAll, ih]

/-- Nor has the layout of one tree. -/
theorem tags_withoutLayout (tree : Tree) : tree.withoutLayout.tags = tree.tags := by
  cases tree with
  | text content => rw [withoutLayout]
  | element name attributes children =>
    rw [withoutLayout, tags, tags, tagsAll_withoutLayoutAll]
  | emptyElement name attributes => rw [withoutLayout, tags, tags, tagsAll]

/-- The layout is made of texts, each of them blank. -/
theorem exists_text_of_isLayout {tree : Tree} (h : tree.isLayout = true) :
    ∃ blanks, blanks.all isBlank = true ∧ tree = .text blanks := by
  cases tree with
  | text content => exact ⟨content, h, rfl⟩
  | element name attributes children => cases h
  | emptyElement name attributes => cases h

/-! ### The nodes of trees, whatever their layout -/

/-- A tag ends the run that is pending. Its nodes are the same whether the element is written as
one tag or as two. -/
theorem nodesFrom_of_tag? {escape : Char → Text} {tree : Tree} {name : Text}
    {attributes : List (Text × Text)}
    (h : tree.tag? = some (name, attributes)) (pending : Text) (rest : List Tree) :
    nodesFrom escape pending (tree :: rest)
      = .text (runOf pending) :: .element name (attributes.flatMap renderAttribute)
          (tree.nodes escape) :: nodesFrom escape [] rest := by
  cases tree <;> cases h <;> rw [nodesFrom]

section Nodes

variable {escape : Char → Text} (hescape : IsEscape escape)
include hescape

/-- Trees start with blanks. After these nothing is left without the layout, or a tree that is no
layout comes first. The induction is on the trees, as long as they are layout. -/
theorem exists_nodesFrom (trees : List Tree) (pending : Text) :
    ∃ blanks, blanks.all isBlank = true ∧
      ((withoutLayoutAll trees = [] ∧
          nodesFrom escape pending trees = [.text (runOf (pending ++ blanks))]) ∨
        ∃ tree rest, withoutLayoutAll trees = tree.withoutLayout :: withoutLayoutAll rest ∧
          nodesFrom escape pending trees
            = nodesFrom escape (pending ++ blanks) (tree :: rest)) := by
  induction trees generalizing pending with
  | nil => exact ⟨[], rfl, .inl ⟨rfl, by rw [nodesFrom, List.append_nil]⟩⟩
  | cons tree rest ih =>
    by_cases hlayout : tree.isLayout = true
    · -- The text goes to what is pending, and what is first comes out of the rest.
      obtain ⟨blanks, hblanks, rfl⟩ := exists_text_of_isLayout hlayout
      obtain ⟨more, hmore, hfirst⟩ := ih (pending ++ blanks.flatMap escape)
      refine ⟨blanks ++ more, by rw [List.all_append, hblanks, hmore]; rfl, ?_⟩
      rw [hescape.flatMap_of_all_isBlank hblanks, List.append_assoc] at hfirst
      rw [withoutLayoutAll, if_pos hlayout, nodesFrom, hescape.flatMap_of_all_isBlank hblanks]
      exact hfirst
    · refine ⟨[], rfl, .inr ⟨tree, rest, ?_, ?_⟩⟩
      · rw [withoutLayoutAll, if_neg hlayout]
      · rw [List.append_nil]

/-- Where nothing is left without the layout, there is one more run of blanks. It may be empty, as
it is between two tags with nothing in between. -/
theorem exists_nodesFrom_of_nil {trees : List Tree} (h : withoutLayoutAll trees = [])
    (pending : Text) :
    ∃ blanks, blanks.all isBlank = true ∧
      nodesFrom escape pending trees = [.text (runOf (pending ++ blanks))] := by
  obtain ⟨blanks, hblanks, ⟨-, hnodes⟩ | ⟨tree, rest, hfirst, -⟩⟩ :=
    exists_nodesFrom hescape trees pending
  · exact ⟨blanks, hblanks, hnodes⟩
  · rw [h] at hfirst
    cases hfirst

/-- Where a text is left, it is in one run with the blanks around it. The blanks before it may be
several texts of the layout, and those behind it too, but the reader cannot tell where one ends. -/
theorem exists_nodesFrom_of_text {trees : List Tree} {content : Text}
    (h : withoutLayoutAll trees = [.text content]) (pending : Text) :
    ∃ before after, before.all isBlank = true ∧ after.all isBlank = true ∧
      nodesFrom escape pending trees
        = [.text (runOf (pending ++ before ++ content.flatMap escape ++ after))] := by
  obtain ⟨before, hbefore, ⟨hnil, -⟩ | ⟨tree, rest, hfirst, hnodes⟩⟩ :=
    exists_nodesFrom hescape trees pending
  · rw [h] at hnil
    cases hnil
  · obtain ⟨htree, hrest⟩ := List.cons.inj (h.symm.trans hfirst)
    cases tree with
    | text content' =>
      rw [withoutLayout] at htree
      obtain rfl := Tree.text.inj htree
      obtain ⟨after, hafter, hlast⟩ :=
        exists_nodesFrom_of_nil hescape hrest.symm (pending ++ before ++ content.flatMap escape)
      exact ⟨before, after, hbefore, hafter, by rw [hnodes, nodesFrom, hlast]⟩
    | element name attributes children => rw [withoutLayout] at htree; cases htree
    | emptyElement name attributes => rw [withoutLayout] at htree; cases htree

/-- Where an element is left first, it comes after a run of blanks, and the rest after it. The
element stands in some layout of its own, which is that of `tree`. -/
theorem exists_nodesFrom_of_tag? {trees more : List Tree} {plain : Tree} {name : Text}
    {attributes : List (Text × Text)} (h : withoutLayoutAll trees = plain :: more)
    (hplain : plain.tag? = some (name, attributes)) (pending : Text) :
    ∃ (blanks : Text) (tree : Tree) (rest : List Tree), blanks.all isBlank = true ∧
      tree.withoutLayout = plain ∧
      withoutLayoutAll rest = more ∧
      nodesFrom escape pending trees
        = .text (runOf (pending ++ blanks)) :: .element name (attributes.flatMap renderAttribute)
            (tree.nodes escape) :: nodesFrom escape [] rest := by
  obtain ⟨blanks, hblanks, ⟨hnil, -⟩ | ⟨tree, rest, hfirst, hnodes⟩⟩ :=
    exists_nodesFrom hescape trees pending
  · rw [h] at hnil
    cases hnil
  · obtain ⟨rfl, rfl⟩ := List.cons.inj (h.symm.trans hfirst)
    rw [tag?_withoutLayout] at hplain
    exact ⟨blanks, tree, rest, hblanks, rfl, rfl, by rw [hnodes, nodesFrom_of_tag? hplain]⟩

end Nodes

/-- An element has the nodes of its children; an empty tag has none. Both may be left as an
element without children, which is why there are two cases. -/
theorem nodes_of_withoutLayout (escape : Char → Text) {tree : Tree} {name : Text}
    {attributes : List (Text × Text)} {plain : List Tree}
    (h : tree.withoutLayout = .element name attributes plain) :
    (plain = [] ∧ tree.nodes escape = []) ∨
      ∃ children, withoutLayoutAll children = plain ∧
        tree.nodes escape = nodesFrom escape [] children := by
  cases tree with
  | text content => rw [withoutLayout] at h; cases h
  | element name' attributes' children =>
    rw [withoutLayout] at h
    cases h
    exact .inr ⟨children, rfl, by rw [nodes]⟩
  | emptyElement name' attributes' =>
    rw [withoutLayout] at h
    cases h
    exact .inl ⟨rfl, by rw [nodes]⟩

/-! ### Trees that have no layout -/

/-- A tree that is left as it is without the layout. -/
structure IsTight (tree : Tree) : Prop where
  isLayout_eq : tree.isLayout = false
  withoutLayout_eq : tree.withoutLayout = tree

/-- Trees without layout are left as they are, since none is passed over and none changes. -/
theorem withoutLayoutAll_of_isTight {trees : List Tree} (h : ∀ tree ∈ trees, tree.IsTight) :
    withoutLayoutAll trees = trees := by
  induction trees with
  | nil => rfl
  | cons tree rest ih =>
    rw [List.forall_mem_cons] at h
    rw [withoutLayoutAll, h.1.isLayout_eq, if_neg Bool.false_ne_true, h.1.withoutLayout_eq, ih h.2]

/-- An element has no layout of its own, only in its children. -/
theorem isTight_element (name : Text) (attributes : List (Text × Text)) {children : List Tree}
    (h : ∀ child ∈ children, child.IsTight) : (element name attributes children).IsTight where
  isLayout_eq := by rw [isLayout]
  withoutLayout_eq := by rw [withoutLayout, withoutLayoutAll_of_isTight h]

/-- A trimmed text is no layout, unless it is empty. Its first character is no blank, and one such
character is enough. -/
theorem isTight_text {content : Text} (hne : content ≠ []) (htrim : Text.trim content = content) :
    (text content).IsTight where
  isLayout_eq := by
    obtain ⟨c, tail, rfl⟩ := List.exists_cons_of_ne_nil hne
    have hvisible : Text.isBlank c = false := (Text.trim_eq_self_iff.mp htrim).1 c rfl
    cases hblank : isBlank c with
    | false => rw [isLayout, List.all_cons, hblank, Bool.false_and]
    | true => exact absurd (hvisible.symm.trans (isBlank_of_isBlank hblank)) (by decide)
  withoutLayout_eq := by rw [withoutLayout]

end Tree

end TaskGrammar.Markup
