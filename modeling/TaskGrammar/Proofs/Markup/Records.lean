import TaskGrammar.Proofs.Markup.Children

/-!
# `TaskGrammar.Proofs.Markup.Records`: what is written in an element is found in it

An element says something by the attributes of its tag and by what is in it. Both go into one
record, in which values are looked up by name, and the two kinds of names differ in their first
character.

* `Record.option?_ofEntries`: what is looked up in a record is what the attributes say.
* `Record.required?_ofTexts`: what is no attribute is looked up among the texts.
* `Tree.gives_read_items` and its like: the record of an element.
* `Document.readRoot?_render`: a document is read as the items that are in its root.
-/

set_option autoImplicit false

namespace TaskGrammar.Markup

open Event

/-! ### Looking values up -/

namespace Record

variable {α : Type} {name : Text} {attributes : List (Text × Text)}

/-- What is found in a tag and in the children of its element. -/
def ofEntries (attributes : List (Text × Text)) (found : Record α) : Record α :=
  (ofAttributes (attributes.map fun entry =>
    { key := entry.1, raw := entry.2.flatMap escapeInValue })).append found

/-- A record of children, none of which has the name of an attribute. -/
def IsContent (found : Record α) : Prop :=
  ∀ entry ∈ found.values, entry.1.head? ≠ some '@'

/-- Items have no names, so they are not taken for attributes. -/
theorem isContent_ofItems (items : List α) : (ofItems items).IsContent :=
  nofun

/-- Texts by name are not either, if no name starts the way those of attributes do. -/
theorem isContent_ofTexts {entries : List (Text × Text)}
    (h : ∀ entry ∈ entries, entry.1.head? ≠ some '@') :
    (ofTexts entries : Record α).IsContent :=
  List.forall_mem_map.mpr h

/-- Among entries with distinct keys, those of a key are the one that is looked up, if any. A
record gathers all values of a name and refuses a name with two, so looking up is not enough for
it. -/
theorem filter_of_nodup {γ : Type} {entries : List (Text × γ)}
    (hnodup : (entries.map Prod.fst).Nodup) (key : Text) :
    entries.filter (fun entry => entry.1 = key)
      = ((entries.lookup key).map fun value => (key, value)).toList := by
  induction entries with
  | nil => rfl
  | cons entry entries ih =>
    obtain ⟨first, value⟩ := entry
    rw [List.map_cons, List.nodup_cons] at hnodup
    by_cases hkey : first = key
    · subst hkey
      have hnone : entries.filter (fun entry => entry.1 = first) = [] := by
        rw [List.filter_eq_nil_iff]
        intro entry hentry heq
        exact hnodup.1 (List.mem_map.mpr ⟨entry, hentry, of_decide_eq_true heq⟩)
      simp [hnone]
    · have hother : (key == first) = false := beq_false_of_ne (Ne.symm hkey)
      rw [List.filter_cons_of_neg (by simpa using hkey), ih hnodup.2, List.lookup_cons, hother]

/-- What comes once is found. Where a name came twice, looking it up would fail. -/
theorem value?_of_filter {record : Record α} {wanted : Text} {value? : Option Value}
    (h : record.values.filter (fun entry => entry.1 = wanted)
      = (value?.map fun value => (wanted, value)).toList) :
    record.value? wanted = some value? := by
  rw [Record.value?, h]
  cases value? <;> rfl

/-- The value of an attribute is what the tag says, as it was escaped. Nothing in the element can
hide it, since no child has the name of an attribute. -/
theorem value?_ofEntries (htag : IsPlainTag name attributes) {found : Record α}
    (hfound : found.IsContent) (key : Text) :
    (ofEntries attributes found).value? ('@' :: key)
      = some ((attributes.lookup key).map fun value => .quoted (value.flatMap escapeInValue)) := by
  have hvalues : (ofEntries attributes found).values
      = (attributes.map fun entry => ('@' :: entry.1, .quoted (entry.2.flatMap escapeInValue)))
        ++ found.values := by
    have hentry : ∀ entry ∈ attributes,
        ('@' :: Attribute.name ⟨entry.1, entry.2.flatMap escapeInValue⟩,
          Value.quoted (entry.2.flatMap escapeInValue))
        = ('@' :: entry.1, .quoted (entry.2.flatMap escapeInValue)) := by
      intro entry hentry
      rw [Attribute.name_eq (htag.keys entry hentry)]
    rw [ofEntries, append, ofAttributes, List.map_map]
    exact congrArg (· ++ found.values) (List.map_congr_left hentry)
  -- The name is that of an attribute, so none of the children has it.
  have hother : found.values.filter (fun entry => entry.1 = '@' :: key) = [] := by
    rw [List.filter_eq_nil_iff]
    intro entry hentry heq
    exact hfound entry hentry (by rw [of_decide_eq_true heq]; rfl)
  apply value?_of_filter
  rw [hvalues, List.filter_append, hother, List.append_nil, List.filter_map]
  have hkey : ((fun entry : Text × Value => decide (entry.1 = '@' :: key)) ∘
      fun entry : Text × Text => ('@' :: entry.1, .quoted (entry.2.flatMap escapeInValue)))
      = fun entry => decide (entry.1 = key) := by
    funext entry
    simp
  rw [hkey, filter_of_nodup htag.nodup]
  cases attributes.lookup key <;> rfl

/-- What is no attribute is looked up among the children. No attribute has the name, since the
names of attributes start with a sign that this one does not start with. -/
theorem value?_found {found : Record α} (hnodup : (found.values.map Prod.fst).Nodup) {wanted : Text}
    (hwanted : wanted.head? ≠ some '@') :
    (ofEntries attributes found).value? wanted = some (found.values.lookup wanted) := by
  apply value?_of_filter
  rw [ofEntries, append, List.filter_append, filter_of_nodup hnodup, List.append_left_eq_self,
    List.filter_eq_nil_iff]
  intro entry hentry heq
  obtain ⟨written, -, rfl⟩ := List.mem_map.mp hentry
  rw [← of_decide_eq_true heq] at hwanted
  exact hwanted rfl

/-- A text is looked up among those of the children. It was resolved when it was read, so no
reference in it can make this fail. -/
theorem required?_ofTexts {entries : List (Text × Text)} (hnodup : (entries.map Prod.fst).Nodup)
    {wanted : Text} (hwanted : wanted.head? ≠ some '@') :
    (ofEntries attributes (ofTexts entries : Record α)).required? wanted
      = entries.lookup wanted := by
  have hvalues : (ofTexts entries : Record α).values.lookup wanted
      = (entries.lookup wanted).map .text := by
    induction entries with
    | nil => rfl
    | cons entry entries ih =>
      rw [List.map_cons, List.nodup_cons] at hnodup
      show ((entry.1, Value.text entry.2) :: (ofTexts entries : Record α).values).lookup wanted = _
      rw [List.lookup_cons, List.lookup_cons, ih hnodup.2]
      cases wanted == entry.1 <;> rfl
  have hnodup' : ((ofTexts entries : Record α).values.map Prod.fst).Nodup := by
    rwa [ofTexts, List.map_map]
  rw [required?, option?, value?_found hnodup' hwanted, hvalues]
  cases entries.lookup wanted <;> rfl

section Attributes

variable (htag : IsPlainTag name attributes) {found : Record α} (hfound : found.IsContent)
  (key : Text) {wanted : Text} (hkey : wanted = '@' :: key)
include htag hfound hkey

/-- An attribute that may be missing is what the tag says. Its value is resolved only here, and
resolving undoes how it was escaped. -/
theorem option?_ofEntries :
    (ofEntries attributes found).option? wanted = some (attributes.lookup key) := by
  subst hkey
  rw [option?, value?_ofEntries htag hfound key]
  cases attributes.lookup key with
  | none => rfl
  | some value =>
    show (resolve? (value.flatMap escapeInValue)).map some = some (some value)
    rw [resolve?_escapeInValue, Option.map_some]

/-- An attribute that must be there is what the tag says, and is missed where the tag has none. -/
theorem required?_ofEntries :
    (ofEntries attributes found).required? wanted = attributes.lookup key := by
  rw [required?, option?_ofEntries htag hfound key hkey, Option.bind_some, id]

/-- One that may be missing is empty then. -/
theorem optional?_ofEntries :
    (ofEntries attributes found).optional? wanted = some ((attributes.lookup key).getD []) := by
  rw [optional?, option?_ofEntries htag hfound key hkey, Option.map_some]

/-- A truth value is spelled out, or it is false and may be missing. It is read from the value as
it was written, in which these letters stand for themselves. -/
theorem flag?_ofEntries {flag : Bool}
    (hlookup : attributes.lookup key = some (if flag then "true".toList else "false".toList) ∨
      flag = false ∧ attributes.lookup key = none) :
    (ofEntries attributes found).flag? wanted = some flag := by
  subst hkey
  rw [flag?, value?_ofEntries htag hfound key]
  rcases hlookup with hlookup | ⟨rfl, hlookup⟩
  · rw [hlookup]
    cases flag <;> decide
  · rw [hlookup]
    rfl

end Attributes

end Record

/-! ### Elements and documents -/

section Elements

variable {α β : Type} {escape : Char → Text} (hescape : IsEscape escape) (layout : Layout α)
  {name : Text} {attributes : List (Text × Text)} (htag : IsPlainTag name attributes)

include htag

/-- An element is read by its tag and by its children. -/
theorem Layout.gives_read {children : List Node} {found : Record α} {before after : Scopes}
    (h : (layout.readChildren (attributes.flatMap renderAttribute) .before false children).Gives
      before found after) :
    (layout.read (attributes.flatMap renderAttribute) children).Gives before
      (.ofEntries attributes found) after := by
  have hentries := Attribute.ofText?_flatMap_renderAttribute htag.isTag.keys htag.nodup
  exact (Reading.gives_liftM hentries before).bind (h.bind (Reading.gives_pure _ after))

include hescape

/-- An element without children says what its tag says. -/
theorem Tree.gives_read_empty {tree : Tree}
    (htree : tree.withoutLayout = .element name attributes []) (scopes : Scopes) :
    (layout.read (attributes.flatMap renderAttribute) (tree.nodes escape)).Gives ([] :: scopes)
      (.ofEntries attributes (.ofItems [])) scopes :=
  layout.gives_read htag (gives_readChildren_empty hescape htree _ scopes)

/-- An element with nothing but a text in it says this, too. -/
theorem Tree.gives_read_text {content : Text} (hne : content ≠ [])
    (htrim : Text.trim content = content) {tree : Tree}
    (htree : tree.withoutLayout = .element name attributes [.text content]) (scopes : Scopes) :
    (layout.read (attributes.flatMap renderAttribute) (tree.nodes escape)).Gives ([] :: scopes)
      (.ofEntries attributes (.ofTexts [("$text".toList, content)])) scopes :=
  layout.gives_read htag (gives_readChildren_text hescape hne htrim htree _ scopes)

/-- An element with texts by name says these, too. The names of the texts have no sign in front,
so they do not meet those of the attributes. -/
theorem Tree.gives_read_values {entries : List (Text × Text)}
    (hnames : ∀ entry ∈ entries, IsPlainName entry.1)
    (hlookup : ∀ entry ∈ entries, layout.lookup entry.1 = some .value)
    (htexts : ∀ entry ∈ entries, entry.2 ≠ [] ∧ Text.trim entry.2 = entry.2) {tree : Tree}
    (htree : tree.withoutLayout
      = .element name attributes (entries.map fun entry => .element entry.1 [] [.text entry.2]))
    (scopes : Scopes) :
    (layout.read (attributes.flatMap renderAttribute) (tree.nodes escape)).Gives ([] :: scopes)
      (.ofEntries attributes (.ofTexts entries)) scopes :=
  layout.gives_read htag (gives_readChildren_values hescape hnames hlookup htexts htree _ scopes)

/-- An element with a list of items in it has these. What the items are is left open; the readers
of files put in their own. -/
theorem Tree.gives_read_items {read : Text → List Node → Reading α} {itemName : Text}
    (hname : IsPlainName itemName) (hlookup : layout.lookup itemName = some (.item read))
    {plain : β → Tree} {item : β → α} {entries : List β}
    (hreads : ∀ entry ∈ entries, Reads escape read itemName (plain entry) (item entry))
    {tree : Tree} (htree : tree.withoutLayout = .element name attributes (entries.map plain))
    (scopes : Scopes) :
    (layout.read (attributes.flatMap renderAttribute) (tree.nodes escape)).Gives ([] :: scopes)
      (.ofEntries attributes (.ofItems (entries.map item))) scopes :=
  layout.gives_read htag (gives_readChildren_items hescape hname hlookup hreads htree _ scopes)

end Elements

/-- A document is read as the items in its root, if its root holds a list of elements that are read
as these. -/
theorem Document.readRoot?_render {α β : Type} {escape : Char → Text} (hescape : IsEscape escape)
    {read : Text → List Node → Reading α} {name : Text} (hname : IsPlainName name)
    {plain : β → Tree} {item : β → α} {entries : List β}
    (hreads : ∀ entry ∈ entries, Tree.Reads escape read name (plain entry) (item entry))
    {document : Document} {root : Text} (hroot : IsPlainName root)
    (hdocument : document.root.withoutLayout = .element root [] (entries.map plain)) :
    Layout.readRoot? [(name, .item read)] (document.render escape)
      = some (.ofEntries [] (.ofItems (entries.map item))) := by
  have htag : IsPlainTag root [] := .of_isPlainName hroot
  have hplain : (Tree.element root [] (entries.map plain)).IsPlain := by
    rw [Tree.isPlain_element_iff, List.forall_mem_map]
    exact ⟨htag, fun entry hentry => (hreads entry hentry).isPlain⟩
  -- The layout has no tags, so the document has those of its elements.
  have hsame : document.root.tag? = some (root, []) := by
    rw [← Tree.tag?_withoutLayout, hdocument, Tree.tag?]
  have htags : ∀ tag ∈ document.root.tags, Token.IsTag tag.1 tag.2 := by
    rw [← Tree.tags_withoutLayout, hdocument]
    exact fun tag hmem => (hplain tag hmem).isTag
  have hlookup : List.lookup name [(name, Role.item read)] = some (.item read) := by
    rw [List.lookup_cons_self]
  have hread := Tree.gives_read_items hescape [(name, .item read)] htag hname hlookup hreads
    hdocument []
  have hgives : (do
      Reading.enter (([] : List (Text × Text)).flatMap renderAttribute)
      Layout.read [(name, .item read)] (([] : List (Text × Text)).flatMap renderAttribute)
        (document.root.nodes escape)).Gives [] _ [] :=
    (Reading.gives_enter htag []).bind hread
  rw [Layout.readRoot?, Document.ofText?_render hescape document hsame htags]
  exact congrArg (Option.map Prod.fst) hgives

end TaskGrammar.Markup
