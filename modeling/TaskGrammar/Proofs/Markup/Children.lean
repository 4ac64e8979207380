import Mathlib.Data.Option.Basic
import TaskGrammar.Markup.Record
import TaskGrammar.Proofs.Markup.Blanks

/-!
# `TaskGrammar.Proofs.Markup.Children`: reading what an element holds

A reader of records goes through the children of an element in order. Here are the elements that it
can go through to the end: those with a list of items, with texts by name, with one text, or with
nothing in them, whatever their layout.

Prefixes of names mean something to the reader, so all names here are plain (`IsPlainName`). No tag
then declares a prefix, and every tag opens a scope without declarations.

* `Reading.Gives`: a reading that succeeds, with the scopes before and after it.
* `Tree.Reads`: an element that is read as an item, however it is laid out.
* `Tree.gives_readChildren_nodesFrom`: what is found in one child after the other.
* `Tree.gives_readChildren_items` / `_values` / `_text` / `_empty`: the four kinds of elements.
-/

set_option autoImplicit false

namespace TaskGrammar.Markup

open Event

/-! ### Names without prefixes -/

/-- Names of elements and attributes that have no prefix. -/
structure IsPlainName (name : Text) : Prop extends IsName name where
  colonless : ':' ∉ name

instance (name : Text) : Decidable (IsPlainName name) :=
  decidable_of_iff ((name ≠ [] ∧ name.all isNameChar = true) ∧ ':' ∉ name)
    ⟨fun h => ⟨⟨h.1.1, h.1.2⟩, h.2⟩, fun h => ⟨⟨h.ne_nil, h.all⟩, h.colonless⟩⟩

/-- Tags in which nothing has a prefix and no key comes twice. -/
structure IsPlainTag (name : Text) (attributes : List (Text × Text)) : Prop where
  name : IsPlainName name
  keys : ∀ entry ∈ attributes, IsPlainName entry.1
  nodup : (attributes.map Prod.fst).Nodup

/-- A tag without attributes is plain if its name is. -/
theorem IsPlainTag.of_isPlainName {name : Text} (h : IsPlainName name) : IsPlainTag name [] where
  name := h
  keys := nofun
  nodup := List.nodup_nil

/-- A tag is plain if the keys in it are some of a list of plain ones. -/
theorem IsPlainTag.of_sublist {name : Text} {attributes : List (Text × Text)} (keys : List Text)
    (hname : IsPlainName name) (hkeys : ∀ key ∈ keys, IsPlainName key) (hnodup : keys.Nodup)
    (h : (attributes.map Prod.fst).Sublist keys) : IsPlainTag name attributes where
  name := hname
  keys _ hentry := hkeys _ (h.subset (List.mem_map_of_mem hentry))
  nodup := hnodup.sublist h

/-- The whole of a plain name is its local part, so a reader that asks for the local part of a
name finds what was written. -/
theorem IsPlainName.localName_eq {name : Text} (h : IsPlainName name) : localName name = name := by
  have hdrop : (name ++ []).dropWhile (fun c => c != ':') = [].dropWhile fun c => c != ':' :=
    List.dropWhile_append_of_pos (List.all_eq_true.mp (all_ne_of_notMem h.colonless))
  rw [List.append_nil, List.dropWhile_nil] at hdrop
  rw [localName, hdrop]

/-- A plain name declares no prefix. -/
theorem IsPlainName.not_isPrefixOf {name : Text} (h : IsPlainName name) :
    ¬ "xmlns:".toList.isPrefixOf name = true := by
  intro hprefix
  exact h.colonless ((List.isPrefixOf_iff_prefix.mp hprefix).subset (by decide))

/-- An attribute is known by the key that was written for it. This holds as well for `xmlns`
itself, which names no prefix. -/
theorem Attribute.name_eq {entry : Attribute} (h : IsPlainName entry.key) :
    entry.name = entry.key := by
  rw [Attribute.name]
  split
  · rfl
  · exact h.localName_eq

namespace IsPlainTag

variable {name : Text} {attributes : List (Text × Text)} (h : IsPlainTag name attributes)
include h

/-- A plain tag can be read as it was written, for which its names need no more than to be names. -/
theorem isTag : Token.IsTag name attributes where
  name := h.name.toIsName
  keys entry hentry := (h.keys entry hentry).toIsName
  nodup := h.nodup

/-- A plain tag declares nothing: its attributes are read back one by one, and no key among them
starts the way a declaration does. -/
theorem ofTag_eq_nil : Declaration.ofTag (attributes.flatMap renderAttribute) = [] := by
  rw [Declaration.ofTag, Attribute.scanAll_flatMap_renderAttribute false h.isTag.keys h.nodup,
    List.filterMap_eq_nil_iff]
  intro entry hentry
  rw [List.mem_filterMap] at hentry
  obtain ⟨found, hfound, rfl⟩ := hentry
  obtain ⟨written, hwritten, heq⟩ := List.mem_map.mp ((List.takeWhile_prefix _).subset hfound)
  obtain rfl := Option.some.inj heq
  exact if_neg (h.keys written hwritten).not_isPrefixOf

end IsPlainTag

namespace Tree

/-- A tree in which all tags are plain. -/
def IsPlain (tree : Tree) : Prop :=
  ∀ tag ∈ tree.tags, IsPlainTag tag.1 tag.2

/-- A text has no tags, so there is nothing to be asked of it. -/
theorem isPlain_text (content : Text) : (text content).IsPlain :=
  nofun

/-- An element is plain if its own tag is and its children are. This is how the readers below come
from an element to what it holds. -/
theorem isPlain_element_iff {name : Text} {attributes : List (Text × Text)}
    {children : List Tree} :
    (element name attributes children).IsPlain ↔
      IsPlainTag name attributes ∧ ∀ child ∈ children, child.IsPlain := by
  have hall : (∀ tag ∈ tagsAll children, IsPlainTag tag.1 tag.2) ↔
      ∀ child ∈ children, child.IsPlain := by
    induction children with
    | nil => simp [tagsAll]
    | cons child children ih =>
      rw [tagsAll, List.forall_mem_append, ih, List.forall_mem_cons, IsPlain]
  rw [IsPlain, tags, List.forall_mem_cons, hall]

end Tree

/-! ### Readings that succeed -/

namespace Reading

variable {α β : Type}

/-- A reading that succeeds: what it gives, and how it changes the declarations in scope. Readings
of parts are put together by `Gives.bind`, with no look at how scopes are handed on. -/
def Gives (reading : Reading α) (before : Scopes) (a : α) (after : Scopes) : Prop :=
  reading.run before = some (a, after)

/-- What two readings give one after the other. The second one starts with the scopes that the
first one leaves. -/
theorem Gives.bind {reading : Reading α} {next : α → Reading β} {before middle after : Scopes}
    {a : α} {b : β} (h : reading.Gives before a middle) (h' : (next a).Gives middle b after) :
    (reading >>= next).Gives before b after := by
  unfold Gives at h h' ⊢
  rw [StateT.run_bind, h]
  exact h'

/-- A reading that gives a value at once leaves the scopes as they are. -/
theorem gives_pure (a : α) (scopes : Scopes) : (pure a : Reading α).Gives scopes a scopes :=
  rfl

/-- What needs no scopes leaves them as they are. -/
theorem gives_liftM {found? : Option α} {a : α} (h : found? = some a) (scopes : Scopes) :
    (liftM found? : Reading α).Gives scopes a scopes := by
  rw [h]
  rfl

/-- Where an element ends, the scope that its tag opened is closed, whatever was declared in it. -/
theorem gives_leave (declarations : List Declaration) (scopes : Scopes) :
    leave.Gives (declarations :: scopes) () scopes :=
  rfl

/-- A plain tag opens a scope without declarations. For any other tag the scope would have to be
computed from the attributes, and a key that comes twice would stop the reading. -/
theorem gives_enter {name : Text} {attributes : List (Text × Text)}
    (h : IsPlainTag name attributes) (scopes : Scopes) :
    (enter (attributes.flatMap renderAttribute)).Gives scopes () ([] :: scopes) := by
  unfold Gives enter
  rw [StateT.run, Scopes.enter?, h.ofTag_eq_nil]
  rfl

end Reading

/-! ### Reading children -/

namespace Layout

open Reading Markup.Tree

variable {α : Type} {layout : Layout α} {parent : Text} {progress : Progress}

/-- A run of nothing but blanks between two elements is passed over. An empty run is passed over
with it, since nothing is left of either once the blanks are trimmed away. -/
theorem readChildren_blanks {blanks : Text} (hblanks : blanks.all isBlank = true)
    (rest : List Node) :
    layout.readChildren parent progress false (.text (runOf blanks) :: rest)
      = layout.readChildren parent progress false rest := by
  have htrim : Text.trimWhile isBlank blanks = [] := by
    have hsame : Text.trimWhile isBlank (blanks ++ [] ++ []) = [] :=
      Text.trimWhile_append hblanks rfl nofun nofun
    rwa [List.append_nil, List.append_nil] at hsame
  rw [readChildren, if_neg Bool.false_ne_true, trimEnd_trimStart_runOf, htrim, runOf_nil]

/-- Where the children end, the scope of the element is closed and nothing more is found. -/
theorem gives_readChildren_nil (keepsBlanks : Bool) (declarations : List Declaration)
    (scopes : Scopes) :
    (layout.readChildren parent progress keepsBlanks []).Gives (declarations :: scopes) .empty
      scopes := by
  rw [readChildren]
  exact (gives_leave declarations scopes).bind (gives_pure _ scopes)

/-- An element with nothing but a text in it is read as this text. Other than in an element that
is a value, the text stands under a name of its own. -/
theorem gives_readChildren_text {escape : Char → Text} (hescape : IsEscape escape)
    {before content after : Text} (hbefore : before.all isBlank = true)
    (hafter : after.all isBlank = true) (hne : content ≠ []) (htrim : Text.trim content = content)
    (hprogress : progress.isAmong = false) {rest : List Node} {others : Record α}
    {scopes scopes' : Scopes}
    (hrest : (layout.readChildren parent progress false rest).Gives scopes others scopes') :
    (layout.readChildren parent progress false
      (.text (runOf (before ++ content.flatMap escape ++ after)) :: rest)).Gives scopes
        ((Record.ofValue "$text".toList (.text content)).append others) scopes' := by
  obtain ⟨raw, hraw, htext⟩ := trim_runOf hescape hbefore hafter hne htrim
  rw [readChildren, if_neg Bool.false_ne_true, hraw, hprogress]
  exact (gives_pure () scopes).bind ((gives_liftM htext scopes).bind (hrest.bind (gives_pure _ _)))

/-- An element is read where its tag lets the reader go on. Its child is read in the scope that
the tag opens, and the rest with the scopes that are left then. -/
theorem gives_readChildren_element {name : Text} {attributes : List (Text × Text)}
    (htag : IsPlainTag name attributes) {progress' : Progress}
    (hpass : progress.pass? name (layout.isItem name) = some progress') {children rest : List Node}
    {found others : Record α} {scopes middle after : Scopes}
    (hchild : (layout.readChild parent name (attributes.flatMap renderAttribute) children).Gives
      ([] :: scopes) (found, false) middle)
    (hrest : (layout.readChildren parent progress' false rest).Gives middle others after) :
    (layout.readChildren parent progress false
      (.element name (attributes.flatMap renderAttribute) children :: rest)).Gives scopes
        (found.append others) after := by
  rw [readChildren]
  exact (gives_liftM hpass scopes).bind ((gives_enter htag scopes).bind
    (hchild.bind (hrest.bind (gives_pure _ after))))

/-- An element that the layout knows as an item is read by the reader of items. Its name is looked
up by its local part, so this needs a plain one. -/
theorem gives_readChild_item {name : Text} (hname : IsPlainName name)
    {read : Text → List Node → Reading α} (hlookup : layout.lookup name = some (.item read))
    {attributes : Text} {children : List Node} {item : α} {before after : Scopes}
    (h : (read attributes children).Gives before item after) :
    (layout.readChild parent name attributes children).Gives before (.ofItem item, false)
      after := by
  rw [readChild, hname.localName_eq, hlookup]
  exact h.bind (gives_pure _ after)

/-- And one that it knows as a value is read as its text, under the name of the element. No blanks
are kept for what comes next. -/
theorem gives_readChild_value {name : Text} (hname : IsPlainName name)
    (hlookup : layout.lookup name = some .value) {attributes : Text} {children : List Node}
    {content : Text} {before after : Scopes}
    (h : (Reading.text children).Gives before content after) :
    (layout.readChild parent name attributes children).Gives before
      (.ofValue name (.text content), false) after := by
  rw [readChild, hname.localName_eq, hlookup]
  exact h.bind (gives_pure _ after)

end Layout

/-! ### Children that are read one after the other -/

namespace Record

variable {α : Type}

/-- The record of a list of items. -/
def ofItems (items : List α) : Record α :=
  { values := [], items := items }

/-- The record of texts by name. -/
def ofTexts (entries : List (Text × Text)) : Record α :=
  { values := entries.map fun entry => (entry.1, .text entry.2), items := [] }

/-- What is found in one child after the other. -/
def concat (found : List (Record α)) : Record α :=
  found.foldr append empty

/-- What is found in a row of children starts with what is found in the first of them. -/
theorem concat_cons (first : Record α) (rest : List (Record α)) :
    concat (first :: rest) = first.append (concat rest) :=
  rfl

/-- Items that are found one by one make up the list of them, in their order. -/
theorem concat_map_ofItem {β : Type} (item : β → α) (entries : List β) :
    concat (entries.map fun entry => ofItem (item entry)) = ofItems (entries.map item) := by
  induction entries with
  | nil => rfl
  | cons entry entries ih =>
    rw [List.map_cons, concat_cons, ih]
    rfl

/-- And so do texts by name, each of which is a value of its own. -/
theorem concat_map_ofValue (entries : List (Text × Text)) :
    concat (entries.map fun entry => (ofValue entry.1 (.text entry.2) : Record α))
      = ofTexts entries := by
  induction entries with
  | nil => rfl
  | cons entry entries ih =>
    rw [List.map_cons, concat_cons, ih]
    rfl

end Record

namespace Tree

open Reading

variable {α β : Type} {escape : Char → Text} {layout : Layout α}

/-- An element in which a reader of children finds something, however it is laid out. -/
def Finds (escape : Char → Text) (layout : Layout α) (name : Text) (plain : Tree)
    (found : Record α) : Prop :=
  ∃ attributes children, plain = .element name attributes children ∧ IsPlainTag name attributes ∧
    ∀ tree : Tree, tree.withoutLayout = plain → ∀ parent scopes,
      (layout.readChild parent name (attributes.flatMap renderAttribute) (tree.nodes escape)).Gives
        ([] :: scopes) (found, false) scopes

/-- An element that is read as an item, however it is laid out. -/
def Reads (escape : Char → Text) (read : Text → List Node → Reading α) (name : Text) (plain : Tree)
    (item : α) : Prop :=
  ∃ attributes children, plain = .element name attributes children ∧ plain.IsPlain ∧
    ∀ tree : Tree, tree.withoutLayout = plain → ∀ scopes,
      (read (attributes.flatMap renderAttribute) (tree.nodes escape)).Gives ([] :: scopes) item
        scopes

/-- Only plain elements are said to be read, since the lists and records they stand in have to be
plain as well. -/
theorem Reads.isPlain {read : Text → List Node → Reading α} {name : Text} {plain : Tree} {item : α}
    (h : Reads escape read name plain item) : plain.IsPlain := by
  obtain ⟨attributes, children, -, hplain, -⟩ := h
  exact hplain

/-- What is read as an item is found as one where the layout has items of this name. -/
theorem Reads.finds {read : Text → List Node → Reading α} {name : Text} {plain : Tree} {item : α}
    (h : Reads escape read name plain item) (hlookup : layout.lookup name = some (.item read)) :
    Finds escape layout name plain (.ofItem item) := by
  obtain ⟨attributes, children, rfl, hplain, hgives⟩ := h
  have htag := (isPlain_element_iff.mp hplain).1
  refine ⟨attributes, children, rfl, htag, fun tree htree parent scopes => ?_⟩
  exact Layout.gives_readChild_item htag.name hlookup (hgives tree htree scopes)

/-- A reader that is no further past the items of a list than is `allowed` can go past an element of
the given name, and is no further then, either. -/
def GoesPast (layout : Layout α) (allowed : Progress → Prop) (name : Text) : Prop :=
  ∀ progress, allowed progress →
    ∃ progress', progress.pass? name (layout.isItem name) = some progress' ∧ allowed progress'

section Lists

variable {name : β → Text} {plain : β → Tree} {found : β → Record α} {entries : List β}

/-- What is found in trees is found in one after the other, if the reader can go past each. The
induction is on the elements; before each of them there may be blanks. -/
theorem gives_readChildren_nodesFrom (hescape : IsEscape escape)
    (hfinds : ∀ entry ∈ entries, Finds escape layout (name entry) (plain entry) (found entry))
    {allowed : Progress → Prop}
    (hpass : ∀ entry ∈ entries, GoesPast layout allowed (name entry))
    {trees : List Tree} (htrees : withoutLayoutAll trees = entries.map plain) (parent : Text)
    {progress : Progress} (hprogress : allowed progress) (scopes : Scopes) :
    (layout.readChildren parent progress false (nodesFrom escape [] trees)).Gives ([] :: scopes)
      (.concat (entries.map found)) scopes := by
  induction entries generalizing trees progress with
  | nil =>
    obtain ⟨blanks, hblanks, hnodes⟩ := exists_nodesFrom_of_nil hescape htrees []
    rw [hnodes, List.nil_append, Layout.readChildren_blanks hblanks]
    exact Layout.gives_readChildren_nil false [] scopes
  | cons entry entries ih =>
    rw [List.forall_mem_cons] at hfinds hpass
    obtain ⟨⟨attributes, children, hplain, htag, hgives⟩, hlater⟩ := hfinds
    obtain ⟨progress', hnext, hallowed⟩ := hpass.1 progress hprogress
    rw [List.map_cons] at htrees
    obtain ⟨blanks, tree, rest, hblanks, htree, hrest, hnodes⟩ :=
      exists_nodesFrom_of_tag? hescape htrees (by rw [hplain, tag?]) []
    rw [hnodes, List.nil_append, Layout.readChildren_blanks hblanks]
    exact Layout.gives_readChildren_element htag hnext (hgives tree htree parent ([] :: scopes))
      (ih hlater hpass.2 hrest hallowed)

/-- What is found in the children of an element, whether it is written as one tag or as two. With
one tag there are no nodes at all, not even a run of blanks to be passed over. -/
theorem gives_readChildren_nodes (hescape : IsEscape escape)
    (hfinds : ∀ entry ∈ entries, Finds escape layout (name entry) (plain entry) (found entry))
    {allowed : Progress → Prop}
    (hpass : ∀ entry ∈ entries, GoesPast layout allowed (name entry))
    (hbefore : allowed .before) {tree : Tree} {outer : Text} {attributes : List (Text × Text)}
    (htree : tree.withoutLayout = .element outer attributes (entries.map plain)) (parent : Text)
    (scopes : Scopes) :
    (layout.readChildren parent .before false (tree.nodes escape)).Gives ([] :: scopes)
      (.concat (entries.map found)) scopes := by
  rcases nodes_of_withoutLayout escape htree with ⟨hnil, hnodes⟩ | ⟨trees, htrees, hnodes⟩
  · rw [hnodes, List.map_eq_nil_iff.mp hnil]
    exact Layout.gives_readChildren_nil false [] scopes
  · rw [hnodes]
    exact gives_readChildren_nodesFrom hescape hfinds hpass htrees parent hbefore scopes

end Lists

/-- A list of items stands together, so the items may all be read. The names of the items are all
the same, and nothing but blanks stands between two of them. -/
theorem gives_readChildren_items (hescape : IsEscape escape) {read : Text → List Node → Reading α}
    {name : Text} (hname : IsPlainName name) (hlookup : layout.lookup name = some (.item read))
    {plain : β → Tree} {item : β → α} {entries : List β}
    (hreads : ∀ entry ∈ entries, Reads escape read name (plain entry) (item entry))
    {tree : Tree} {outer : Text} {attributes : List (Text × Text)}
    (htree : tree.withoutLayout = .element outer attributes (entries.map plain)) (parent : Text)
    (scopes : Scopes) :
    (layout.readChildren parent .before false (tree.nodes escape)).Gives ([] :: scopes)
      (.ofItems (entries.map item)) scopes := by
  have hitem : layout.isItem name = true := by
    rw [Layout.isItem, hname.localName_eq, hlookup]
  -- The first item starts the list, and each later one goes on with it.
  have hpass : GoesPast layout (fun progress => progress = .before ∨ progress = .among name)
      name := by
    intro progress hprogress
    rw [hitem]
    rcases hprogress with rfl | rfl
    · exact ⟨.among name, rfl, .inr rfl⟩
    · exact ⟨.among name, if_pos rfl, .inr rfl⟩
  -- So each item is read by itself, and the record of the whole is put together from theirs.
  rw [← Record.concat_map_ofItem]
  exact gives_readChildren_nodes hescape (fun entry hentry => (hreads entry hentry).finds hlookup)
    (fun _ _ => hpass) (.inl rfl) htree parent scopes

/-- An element with one text is one run. It cannot be written as one tag, as it would be empty
then. -/
theorem exists_nodes_of_text (hescape : IsEscape escape) {tree : Tree} {outer content : Text}
    {attributes : List (Text × Text)}
    (htree : tree.withoutLayout = .element outer attributes [.text content]) :
    ∃ before after, before.all isBlank = true ∧ after.all isBlank = true ∧
      tree.nodes escape = [.text (runOf (before ++ content.flatMap escape ++ after))] := by
  rcases nodes_of_withoutLayout escape htree with ⟨hnil, -⟩ | ⟨trees, htrees, hnodes⟩
  · cases hnil
  · obtain ⟨before, after, hbefore, hafter, hrun⟩ := exists_nodesFrom_of_text hescape htrees []
    exact ⟨before, after, hbefore, hafter, by rw [hnodes, hrun, List.nil_append]⟩

/-- The text of an element is read as it was, without the blanks around it. A text of nothing but
blanks would be lost, so there is something in it. -/
theorem gives_text (hescape : IsEscape escape) {tree : Tree} {outer content : Text}
    {attributes : List (Text × Text)}
    (htree : tree.withoutLayout = .element outer attributes [.text content]) (hne : content ≠ [])
    (htrim : Text.trim content = content) (scopes : Scopes) :
    (Reading.text (tree.nodes escape)).Gives ([] :: scopes) content scopes := by
  obtain ⟨before, after, hbefore, hafter, hnodes⟩ := exists_nodes_of_text hescape htree
  obtain ⟨raw, hraw, hresolved⟩ := trim_runOf hescape hbefore hafter hne htrim
  have htext : Node.text? (tree.nodes escape) = some content := by
    rw [hnodes, Node.text?, if_neg, if_pos List.all_nil, hraw, hresolved]
    -- A text that is not empty is one piece, so the run is not the empty one.
    intro hnil
    rw [hnil] at hraw
    cases hraw
  exact (gives_liftM htext _).bind ((gives_leave [] scopes).bind (gives_pure content scopes))

/-- An element with a text as its only child is found as the value of its name. The text may not
be blank at either end, because blanks there belong to the layout. -/
theorem finds_value (hescape : IsEscape escape) {name : Text} (hname : IsPlainName name)
    (hlookup : layout.lookup name = some .value) {content : Text} (hne : content ≠ [])
    (htrim : Text.trim content = content) :
    Finds escape layout name (.element name [] [.text content])
      (.ofValue name (.text content)) := by
  refine ⟨[], _, rfl, .of_isPlainName hname, fun tree htree parent scopes => ?_⟩
  exact Layout.gives_readChild_value hname hlookup (gives_text hescape htree hne htrim scopes)

/-- Elements with nothing but texts in them are read as the values of their names. No list is
begun by any of them, so the reader stays where it was before the first item. -/
theorem gives_readChildren_values (hescape : IsEscape escape) {entries : List (Text × Text)}
    (hnames : ∀ entry ∈ entries, IsPlainName entry.1)
    (hlookup : ∀ entry ∈ entries, layout.lookup entry.1 = some .value)
    (htexts : ∀ entry ∈ entries, entry.2 ≠ [] ∧ Text.trim entry.2 = entry.2)
    {tree : Tree} {outer : Text} {attributes : List (Text × Text)}
    (htree : tree.withoutLayout
      = .element outer attributes (entries.map fun entry => .element entry.1 [] [.text entry.2]))
    (parent : Text) (scopes : Scopes) :
    (layout.readChildren parent .before false (tree.nodes escape)).Gives ([] :: scopes)
      (.ofTexts entries) scopes := by
  have hpass : ∀ entry ∈ entries,
      GoesPast layout (fun progress => progress = .before) entry.1 := by
    rintro entry hentry - rfl
    -- A value starts no list.
    rw [Layout.isItem, (hnames entry hentry).localName_eq, hlookup entry hentry]
    exact ⟨.before, rfl, rfl⟩
  rw [← Record.concat_map_ofValue]
  refine gives_readChildren_nodes hescape (fun entry hentry => ?_) hpass rfl htree parent scopes
  exact finds_value hescape (hnames entry hentry) (hlookup entry hentry) (htexts entry hentry).1
    (htexts entry hentry).2

/-- An element without children is read as nothing. It may have blanks in it, as a list without
entries, and that is how this is proved. -/
theorem gives_readChildren_empty (hescape : IsEscape escape) {tree : Tree} {outer : Text}
    {attributes : List (Text × Text)} (htree : tree.withoutLayout = .element outer attributes [])
    (parent : Text) (scopes : Scopes) :
    (layout.readChildren parent .before false (tree.nodes escape)).Gives ([] :: scopes) .empty
      scopes := by
  have hnone : tree.withoutLayout = .element outer attributes
      (([] : List (Text × Text)).map fun entry => .element entry.1 [] [.text entry.2]) := htree
  exact gives_readChildren_values hescape (List.forall_mem_nil _) (List.forall_mem_nil _)
    (List.forall_mem_nil _) hnone parent scopes

/-- An element with nothing but a text in it is read as this text. -/
theorem gives_readChildren_text (hescape : IsEscape escape) {content : Text} (hne : content ≠ [])
    (htrim : Text.trim content = content) {tree : Tree} {outer : Text}
    {attributes : List (Text × Text)}
    (htree : tree.withoutLayout = .element outer attributes [.text content]) (parent : Text)
    (scopes : Scopes) :
    (layout.readChildren parent .before false (tree.nodes escape)).Gives ([] :: scopes)
      (.ofTexts [("$text".toList, content)]) scopes := by
  obtain ⟨before, after, hbefore, hafter, hnodes⟩ := exists_nodes_of_text hescape htree
  rw [hnodes]
  exact Layout.gives_readChildren_text hescape hbefore hafter hne htrim rfl
    (Layout.gives_readChildren_nil false [] scopes)

end Tree

end TaskGrammar.Markup
