import TaskGrammar.Entity.Source
import TaskGrammar.Proofs.Grammar.Printing
import TaskGrammar.Proofs.Markup.Records

/-!
# `TaskGrammar.Proofs.Entity.Files`: files of entities are read back

Whoever writes a file of entities is free in some respects: how its elements are laid out, how
characters are escaped in texts, in which case the words for genders and tiers stand, and whether an
attribute is left out when its value goes without saying. The layout is that of the `Document`, and
a `Style` decides on the rest. The entities are the same whatever the choice, and they come in the
order of the file: each object with the category around it, each room before the places in it.

* `Stock.contents`, `RoomEntry.contents`: the entities that belong to an element.
* `Style.stockTree` and its like: how the elements of a file are written.
* `Style.readsBack_files`: each of the five kinds of files is read back.
-/

set_option autoImplicit false

namespace TaskGrammar

open Markup
open Markup.Tree Markup.Layout Markup.Record Markup.Reading

/-! ### Words -/

/-- The word for a familiarity. -/
def Familiarity.name : Familiarity → Text
  | known => "known".toList
  | alike => "alike".toList
  | special => "special".toList

/-- A file may have the word for a familiarity in any case and with blanks around it. The reader
looks at the normalised word, which is one of the three. -/
theorem Familiarity.ofName?_of_normalize {word : Text} {familiarity : Familiarity}
    (h : Text.normalize word = familiarity.name) : ofName? word = some familiarity := by
  rw [ofName?, h]
  cases familiarity <;> decide

/-- The same for the word for a gender. Its own spelling is not normalised, so both sides are. -/
theorem Gender.ofName?_of_normalize {word : Text} {gender : Gender}
    (h : Text.normalize word = Text.normalize gender.name) : ofName? word = some gender := by
  rw [ofName?, h]
  cases gender <;> decide

/-- The same for the word for a tier, which the names of all four tiers are compared with. -/
theorem Tier.ofName?_of_normalize {word : Text} {tier : Tier}
    (h : Text.normalize word = Text.normalize tier.name) : ofName? word = some tier := by
  rw [ofName?, h]
  cases tier <;> decide

/-- A truth value as it is spelled in an attribute. -/
def flagName (flag : Bool) : Text :=
  if flag then "true".toList else "false".toList

/-! ### What files say -/

/-- The objects of a category: what each is called, and how well it is known. -/
structure Stock where
  category : Category
  objects : List (Text × Familiarity)
  deriving DecidableEq, Repr

/-- The objects, each in its category. -/
def Stock.contents (stock : Stock) : List Object :=
  stock.objects.map fun object =>
    { name := object.1, familiarity := object.2, category := stock.category }

/-- A category and its objects whose texts have no blanks at their ends. -/
structure Stock.IsTrimmed (stock : Stock) : Prop where
  name : Text.trim stock.category.name = stock.category.name
  defaultLocation : Text.trim stock.category.defaultLocation = stock.category.defaultLocation
  room : Text.trim stock.category.room = stock.category.room
  objects : ∀ object ∈ stock.objects, Text.trim object.1 = object.1

/-- The locations of a room: the room itself, and each place in it. -/
def RoomEntry.contents (room : RoomEntry) : List Location :=
  Location.ofRoom room.name :: room.places.map fun place =>
    Location.inside place.name room.name place.isBeacon place.isPlacement

/-- A room and its places whose names have no blanks at their ends. -/
structure RoomEntry.IsTrimmed (room : RoomEntry) : Prop where
  name : Text.trim room.name = room.name
  places : ∀ place ∈ room.places, Text.trim place.name = place.name

/-- A room that is read becomes the locations that belong to it. The reader trims the names, which
changes nothing where there is nothing to trim. -/
theorem RoomEntry.locations_eq {room : RoomEntry} (h : room.IsTrimmed) :
    room.locations = room.contents := by
  have hplace : ∀ place ∈ room.places, PlaceEntry.location room.name place
      = Location.inside place.name room.name place.isBeacon place.isPlacement := by
    intro place hplace
    rw [PlaceEntry.location, h.places place hplace]
  rw [locations, contents, h.name, List.map_congr_left hplace]

/-- A first name that is not empty, without blanks at its ends. -/
structure PersonName.IsTrimmed (person : PersonName) : Prop where
  ne_nil : person.name ≠ []
  trim : Text.trim person.name = person.name

/-- A question and an answer, neither of them empty, without blanks at their ends. -/
structure Question.IsTrimmed (question : Question) : Prop where
  question_ne_nil : question.question ≠ []
  question_trim : Text.trim question.question = question.question
  answer_ne_nil : question.answer ≠ []
  answer_trim : Text.trim question.answer = question.answer

/-! ### How files are written -/

/-- How a file is written where there is a choice. -/
structure Style where
  /-- How the characters of a text stand in it. -/
  escape : Char → Text
  isEscape : IsEscape escape
  /-- Whether an attribute is left out where its value goes without saying, by its key and by what
  it belongs to. -/
  omits : Text → Text → Bool
  familiarity : Familiarity → Text
  normalize_familiarity : ∀ value, Text.normalize (familiarity value) = value.name
  gender : Gender → Text
  normalize_gender : ∀ value, Text.normalize (gender value) = Text.normalize value.name
  tier : Tier → Text
  normalize_tier : ∀ value, Text.normalize (tier value) = Text.normalize value.name

/-- An attribute of a tag, and whether its value goes without saying. -/
structure Field where
  key : Text
  value : Text
  isDefault : Bool

/-- Keys that may stand in one tag. -/
structure Field.ArePlain (fields : List Field) : Prop where
  keys : ∀ key ∈ fields.map Field.key, IsPlainName key
  nodup : (fields.map Field.key).Nodup

namespace Style

variable (style : Style)

/-- The attributes of a tag, without those that are left out. -/
def attributes (owner : Text) (fields : List Field) : List (Text × Text) :=
  (fields.filter fun field => !(field.isDefault && style.omits field.key owner)).map
    fun field => (field.key, field.value)

/-- What there is to say of an object. -/
def objectFields (object : Text × Familiarity) : List Field :=
  [⟨"name".toList, object.1, false⟩,
    ⟨"type".toList, style.familiarity object.2, object.2 = .known⟩]

/-- An object as it is written. -/
def objectTree (object : Text × Familiarity) : Tree :=
  .element "object".toList (style.attributes object.1 (style.objectFields object)) []

/-- What there is to say of a category. -/
def categoryFields (category : Category) : List Field :=
  [⟨"name".toList, category.name, false⟩,
    ⟨"defaultLocation".toList, category.defaultLocation, category.defaultLocation = []⟩,
    ⟨"room".toList, category.room, category.room = []⟩]

/-- A category with its objects. -/
def stockTree (stock : Stock) : Tree :=
  .element "category".toList (style.attributes stock.category.name (categoryFields stock.category))
    (stock.objects.map style.objectTree)

/-- A first name, which is a text. -/
def personTree (person : PersonName) : Tree :=
  .element "name".toList [("gender".toList, style.gender person.gender)] [.text person.name]

/-- What there is to say of a place. -/
def placeFields (place : PlaceEntry) : List Field :=
  [⟨"name".toList, place.name, false⟩,
    ⟨"isBeacon".toList, flagName place.isBeacon, !place.isBeacon⟩,
    ⟨"isPlacement".toList, flagName place.isPlacement, !place.isPlacement⟩]

/-- A place in a room. -/
def placeTree (place : PlaceEntry) : Tree :=
  .element "location".toList (style.attributes place.name (placeFields place)) []

/-- What there is to say of a room. -/
def roomFields (room : RoomEntry) : List Field :=
  [⟨"name".toList, room.name, false⟩]

/-- A room with the places in it. -/
def roomTree (room : RoomEntry) : Tree :=
  .element "room".toList (style.attributes room.name (roomFields room))
    (room.places.map style.placeTree)

/-- What there is to say of a gesture. -/
def gestureFields (gesture : Gesture) : List Field :=
  [⟨"name".toList, gesture.name, false⟩,
    ⟨"difficulty".toList, style.tier gesture.tier, gesture.tier = .unknown⟩]

/-- A gesture as it is written. -/
def gestureTree (gesture : Gesture) : Tree :=
  .element "gesture".toList (style.attributes gesture.name (style.gestureFields gesture)) []

end Style

/-- The texts of a question, by the names of their elements. -/
def Question.texts (question : Question) : List (Text × Text) :=
  [("q".toList, question.question), ("a".toList, question.answer)]

/-- What the reading of an element with texts asks of each of them: it is not empty, or there
would be no text to find, and no blanks are lost at its ends. -/
theorem Question.IsTrimmed.texts {question : Question} (h : question.IsTrimmed) :
    ∀ entry ∈ question.texts, entry.2 ≠ [] ∧ Text.trim entry.2 = entry.2 :=
  List.forall_mem_cons.mpr ⟨⟨h.question_ne_nil, h.question_trim⟩,
    List.forall_mem_singleton.mpr ⟨h.answer_ne_nil, h.answer_trim⟩⟩

/-- A question with its answer. -/
def Question.tree (question : Question) : Tree :=
  .element "question".toList [] (question.texts.map fun entry =>
    .element entry.1 [] [.text entry.2])

/-- A document whose root holds certain elements, in some layout. -/
def Markup.Document.Holds (document : Document) (root : Text) (elements : List Tree) : Prop :=
  document.root.withoutLayout = .element root [] elements

/-- Some document holds the elements, and each that does is read as the entities. -/
def Style.ReadsBack {α : Type} (style : Style) (root : Text) (elements : List Tree)
    (parse : Text → Except Fault (List α)) (entities : List α) : Prop :=
  (∃ document : Document, document.Holds root elements) ∧
    ∀ document : Document, document.Holds root elements →
      parse (document.render style.escape) = .ok entities

/-- Elements in a root, without any layout. -/
def Markup.Document.inOneLine (root : Text) (elements : List Tree) : Document :=
  { isDeclared := false, blanks := [], all_isBlank := rfl, root := .element root [] elements,
    rest := [] }

/-- There is a document that holds given elements, so that what is said of all of them is said of
something. It is the one without any layout. -/
theorem Markup.Document.exists_holds (root : Text) {elements : List Tree}
    (h : ∀ element ∈ elements, element.IsTight) :
    ∃ document : Document, document.Holds root elements :=
  ⟨.inOneLine root elements, (isTight_element root [] h).withoutLayout_eq⟩

namespace Style

variable (style : Style)

/-! ### Attributes that may be left out -/

/-- Whatever is left out, the tag can be read: its keys are some of the keys of the fields, which
are plain and distinct. -/
theorem isPlainTag_attributes {name : Text} (hname : IsPlainName name) (owner : Text)
    {fields : List Field} (h : Field.ArePlain fields) :
    IsPlainTag name (style.attributes owner fields) := by
  refine .of_sublist (fields.map Field.key) hname h.keys h.nodup ?_
  have hsame : (style.attributes owner fields).map Prod.fst
      = (fields.filter fun field => !(field.isDefault && style.omits field.key owner)).map
          Field.key := by
    rw [attributes, List.map_map]
    rfl
  rw [hsame]
  exact List.filter_sublist.map Field.key

/-- The fields are gone through one by one. This is the one place where it matters that a field is
left out only if its value goes without saying and the style omits it. -/
theorem attributes_cons (owner : Text) (field : Field) (fields : List Field) :
    style.attributes owner (field :: fields)
      = if field.isDefault && style.omits field.key owner then style.attributes owner fields
        else (field.key, field.value) :: style.attributes owner fields := by
  rw [attributes, List.filter_cons]
  cases field.isDefault && style.omits field.key owner <;> rfl

/-- Nothing is found under a key that no field has, and so nothing that a record would not know. -/
theorem lookup_attributes_of_notMem (owner : Text) {fields : List Field} {key : Text}
    (h : key ∉ fields.map Field.key) : (style.attributes owner fields).lookup key = none := by
  rw [List.lookup_eq_none_iff]
  intro entry hentry
  obtain ⟨field, hfield, rfl⟩ := List.mem_map.mp hentry
  rw [List.mem_filter] at hfield
  exact bne_iff_ne.mpr fun heq => h (List.mem_map.mpr ⟨field, hfield.1, heq.symm⟩)

/-- Under the key of a field its value is found, unless the field is left out, which only happens
to a value that goes without saying. All that is read of a tag comes from this. -/
theorem lookup_attributes (owner : Text) {fields : List Field}
    (hnodup : (fields.map Field.key).Nodup) {field : Field} (hfield : field ∈ fields) :
    (style.attributes owner fields).lookup field.key = some field.value ∨
      field.isDefault = true ∧ (style.attributes owner fields).lookup field.key = none := by
  -- On the fields. The keys are distinct, so what is found under the key of a field is the
  -- field's own.
  induction fields with
  | nil => cases hfield
  | cons first fields ih =>
    rw [List.map_cons, List.nodup_cons] at hnodup
    rw [attributes_cons]
    rcases List.mem_cons.mp hfield with rfl | hlater
    · split
      · rename_i homits
        exact .inr ⟨(Bool.and_eq_true_iff.mp homits).1,
          style.lookup_attributes_of_notMem owner hnodup.1⟩
      · exact .inl List.lookup_cons_self
    · have hother : (field.key == first.key) = false :=
        beq_false_of_ne fun heq => hnodup.1 (heq ▸ List.mem_map_of_mem hlater)
      split
      · exact ih hnodup.2 hlater
      · rw [List.lookup_cons, hother]
        exact ih hnodup.2 hlater

section Lookups

variable {α : Type} {name owner : Text} {fields : List Field}

/-- What is read of a tag and of a list of items. -/
def record (style : Style) (owner : Text) (fields : List Field) (items : List α) : Record α :=
  ofEntries (style.attributes owner fields) (ofItems items)

variable (hname : IsPlainName name) (hfields : Field.ArePlain fields)
include hname hfields

section Values

variable {key value wanted : Text} (hkey : wanted = '@' :: key) (items : List α)
include hkey

/-- A field that never goes without saying can be required. -/
theorem required?_record (hfield : ⟨key, value, false⟩ ∈ fields) :
    (style.record owner fields items).required? wanted = some value := by
  have htag := style.isPlainTag_attributes hname owner hfields
  rw [record, required?_ofEntries htag (isContent_ofItems items) key hkey]
  rcases style.lookup_attributes owner hfields.nodup hfield with hlookup | ⟨hdefault, -⟩
  · exact hlookup
  · cases hdefault

/-- A field that goes without saying where it is empty can be read as an empty text when it is not
there. -/
theorem optional?_record (hfield : ⟨key, value, value = []⟩ ∈ fields) :
    (style.record owner fields items).optional? wanted = some value := by
  have htag := style.isPlainTag_attributes hname owner hfields
  rw [record, optional?_ofEntries htag (isContent_ofItems items) key hkey]
  rcases style.lookup_attributes owner hfields.nodup hfield with hlookup | ⟨hdefault, hlookup⟩
  · rw [hlookup, Option.getD_some]
  · rw [hlookup, Option.getD_none, of_decide_eq_true hdefault]

/-- A truth value that goes without saying where it is false can be read as false when it is not
there. -/
theorem flag?_record {flag : Bool} (hfield : ⟨key, flagName flag, !flag⟩ ∈ fields) :
    (style.record owner fields items).flag? wanted = some flag := by
  have htag := style.isPlainTag_attributes hname owner hfields
  apply flag?_ofEntries htag (isContent_ofItems items) key hkey
  rcases style.lookup_attributes owner hfields.nodup hfield with hlookup | ⟨hdefault, hlookup⟩
  · exact .inl hlookup
  · exact .inr ⟨by simpa using hdefault, hlookup⟩

/-- Of any other field a reader learns whether it is there, and its value if it is. What follows
for the entity is seen by whoever knows what goes without saying. -/
theorem option?_record :
    (style.record owner fields items).option? wanted
      = some ((style.attributes owner fields).lookup key) :=
  option?_ofEntries (style.isPlainTag_attributes hname owner hfields) (isContent_ofItems items) key
    hkey

end Values

/-- An element without children is read as what its tag says. The readers of objects, places and
gestures are cases of this, each with its own layout and fields. -/
theorem reads_empty {γ : Type} {layout : Layout α} {next : Record α → Reading γ} {item : γ}
    (h : ∀ scopes, (next (style.record owner fields [])).Gives scopes item scopes) :
    Reads style.escape (fun attributes children => layout.read attributes children >>= next) name
      (.element name (style.attributes owner fields) []) item := by
  have htag := style.isPlainTag_attributes hname owner hfields
  refine ⟨_, _, rfl, isPlain_element_iff.mpr ⟨htag, nofun⟩, fun tree htree scopes => ?_⟩
  exact (gives_read_empty style.isEscape layout htag htree scopes).bind (h scopes)

/-- An element with a list of items is read as what its tag and the items say, if each item is
read as an entry. The readers of categories and rooms are cases of this. -/
theorem reads_items {β γ : Type} {layout : Layout α} {read : Text → List Node → Reading α}
    {itemName : Text} (hitem : IsPlainName itemName)
    (hlookup : layout.lookup itemName = some (.item read)) {plain : β → Tree} {entry : β → α}
    {entries : List β}
    (hreads : ∀ a ∈ entries, Reads style.escape read itemName (plain a) (entry a))
    {next : Record α → Reading γ} {item : γ}
    (h : ∀ scopes,
      (next (style.record owner fields (entries.map entry))).Gives scopes item scopes) :
    Reads style.escape (fun attributes children => layout.read attributes children >>= next) name
      (.element name (style.attributes owner fields) (entries.map plain)) item := by
  have htag := style.isPlainTag_attributes hname owner hfields
  have hplain : ∀ child ∈ entries.map plain, child.IsPlain :=
    List.forall_mem_map.mpr fun a ha => (hreads a ha).isPlain
  refine ⟨_, _, rfl, isPlain_element_iff.mpr ⟨htag, hplain⟩, fun tree htree scopes => ?_⟩
  exact (gives_read_items style.isEscape layout htag hitem hlookup hreads htree scopes).bind
    (h scopes)

end Lookups

/-! ### Objects -/

/-- The keys of an object are plain and distinct, whatever its values are. -/
theorem arePlain_objectFields (object : Text × Familiarity) :
    Field.ArePlain (style.objectFields object) where
  keys := (by decide : ∀ key ∈ ["name".toList, "type".toList], IsPlainName key)
  nodup := (by decide : ["name".toList, "type".toList].Nodup)

/-- What is read of an object; no word for how well it is known is an empty one. -/
def objectEntry (object : Text × Familiarity) : ObjectEntry :=
  { name := object.1
    familiarity := ((style.attributes object.1 (style.objectFields object)).lookup
      "type".toList).getD [] }

/-- An object is read as an entry with its name and the word for how well it is known. The word is
looked up here as it stands, and understood in `object_objectEntry`. -/
theorem reads_object (object : Text × Familiarity) :
    Reads style.escape ObjectEntry.read "object".toList (style.objectTree object)
      (style.objectEntry object) := by
  have hplain : IsPlainName "object".toList := by decide
  have hfields := style.arePlain_objectFields object
  have hname : (style.record object.1 (style.objectFields object) ([] : List Empty)).required?
      "@name".toList = some object.1 :=
    style.required?_record hplain hfields (by decide) [] List.mem_cons_self
  have hfamiliarity : (style.record object.1 (style.objectFields object)
      ([] : List Empty)).optional? "@type".toList
        = some (style.objectEntry object).familiarity := by
    have hkey : "@type".toList = '@' :: "type".toList := by decide
    rw [optional?, style.option?_record hplain hfields hkey]
    rfl
  exact style.reads_empty hplain hfields fun _ =>
    (gives_liftM hname _).bind ((gives_liftM hfamiliarity _).bind (gives_pure _ _))

/-- The word of an object says how well it is known, and so does no word: what may be left out is
the word for the familiarity that no word is taken for. -/
theorem object_objectEntry {category : Category} {object : Text × Familiarity}
    (htrim : Text.trim object.1 = object.1) :
    (style.objectEntry object).object category
      = .ok { name := object.1, familiarity := object.2, category := category } := by
  have hfamiliarity : Familiarity.ofName? (style.objectEntry object).familiarity
      = some object.2 := by
    have hfield : ⟨"type".toList, style.familiarity object.2, object.2 = .known⟩
        ∈ style.objectFields object := List.mem_cons_of_mem _ List.mem_cons_self
    unfold objectEntry
    rcases style.lookup_attributes object.1 (style.arePlain_objectFields object).nodup hfield with
      hword | ⟨hknown, hword⟩
    · rw [hword]
      exact Familiarity.ofName?_of_normalize (style.normalize_familiarity object.2)
    · rw [hword, of_decide_eq_true hknown]
      exact (by decide : Familiarity.ofName? [] = some .known)
  rw [ObjectEntry.object, hfamiliarity]
  exact congrArg (fun name => Except.ok (Object.mk name object.2 category)) htrim

/-- The keys of a category are plain and distinct. -/
theorem arePlain_categoryFields (category : Category) :
    Field.ArePlain (categoryFields category) where
  keys := (by decide : ∀ key ∈ ["name".toList, "defaultLocation".toList, "room".toList],
    IsPlainName key)
  nodup := (by decide : ["name".toList, "defaultLocation".toList, "room".toList].Nodup)

/-- What is read of a category. -/
def stockEntry (stock : Stock) : CategoryEntry :=
  { name := stock.category.name, defaultLocation := stock.category.defaultLocation,
    room := stock.category.room, objects := stock.objects.map style.objectEntry }

/-- A category is read as an entry with its name, its two places and an entry for each of its
objects. A place that is left out is read as the empty one that it is. -/
theorem reads_stock (stock : Stock) :
    Reads style.escape CategoryEntry.read "category".toList (style.stockTree stock)
      (style.stockEntry stock) := by
  obtain ⟨category, objects⟩ := stock
  have hplain : IsPlainName "category".toList := by decide
  have hfields := arePlain_categoryFields category
  have hobjects : ∀ object ∈ objects, Reads style.escape ObjectEntry.read "object".toList
      (style.objectTree object) (style.objectEntry object) := fun object _ =>
    style.reads_object object
  have hname : (style.record category.name (categoryFields category)
      (objects.map style.objectEntry)).required? "@name".toList = some category.name :=
    style.required?_record hplain hfields (by decide) _ List.mem_cons_self
  have hlocation : (style.record category.name (categoryFields category)
      (objects.map style.objectEntry)).optional? "@defaultLocation".toList
        = some category.defaultLocation :=
    style.optional?_record hplain hfields (by decide) _
      (List.mem_cons_of_mem _ List.mem_cons_self)
  have hroom : (style.record category.name (categoryFields category)
      (objects.map style.objectEntry)).optional? "@room".toList = some category.room :=
    style.optional?_record hplain hfields (by decide) _
      (List.mem_cons_of_mem _ (List.mem_cons_of_mem _ List.mem_cons_self))
  exact style.reads_items hplain hfields (by decide) rfl hobjects fun _ =>
    (gives_liftM hname _).bind ((gives_liftM hlocation _).bind ((gives_liftM hroom _).bind
      (gives_pure _ _)))

/-- The entries of a file are the items of its root, in the order of the file and whatever the
layout is. The five kinds of files differ in the names of these elements and in how an item is
read. -/
theorem rootItems_render {α β : Type} {read : Text → List Node → Reading α} {root name : Text}
    (hroot : IsPlainName root) (hname : IsPlainName name) {plain : β → Tree} {item : β → α}
    {entries : List β}
    (hreads : ∀ entry ∈ entries, Reads style.escape read name (plain entry) (item entry))
    {document : Document} (hdocument : document.Holds root (entries.map plain)) :
    rootItems name read (document.render style.escape) = .ok (entries.map item) := by
  rw [rootItems, Document.readRoot?_render style.isEscape hname hreads hroot hdocument]
  rfl

/-- The entry of a category becomes its objects, each in this category. The first object without a
known familiarity would end this, and there is none. -/
theorem toObjects_stockEntry {stock : Stock} (h : stock.IsTrimmed) :
    (style.stockEntry stock).toObjects = .ok stock.contents := by
  have hcategory : (style.stockEntry stock).category = stock.category := by
    rw [CategoryEntry.category, stockEntry, h.name, h.defaultLocation, h.room]
  have hobject : ∀ object ∈ stock.objects,
      (ObjectEntry.object stock.category ∘ style.objectEntry) object
        = pure { name := object.1, familiarity := object.2, category := stock.category } :=
    fun object hobject => style.object_objectEntry (h.objects object hobject)
  rw [CategoryEntry.toObjects, hcategory]
  show (stock.objects.map style.objectEntry).mapM _ = _
  rw [List.mapM_map, mapM_eq_pure_map hobject]
  rfl

/-- A file of objects is read back: the objects of each category in turn, so that the categories
are no longer seen but in the objects. -/
theorem parseObjects_render {document : Document} {stocks : List Stock}
    (hdocument : document.Holds "categories".toList (stocks.map style.stockTree))
    (htrim : ∀ stock ∈ stocks, stock.IsTrimmed) :
    parseObjects (document.render style.escape) = .ok (stocks.flatMap Stock.contents) := by
  have hentries := style.rootItems_render (by decide) (by decide)
    (fun stock _ => style.reads_stock stock) hdocument
  have hobjects : ∀ stock ∈ stocks,
      (CategoryEntry.toObjects ∘ style.stockEntry) stock = pure stock.contents :=
    fun stock hstock => style.toObjects_stockEntry (htrim stock hstock)
  rw [parseObjects, hentries]
  show (do pure (← (stocks.map style.stockEntry).mapM CategoryEntry.toObjects).flatten) = _
  rw [List.mapM_map, mapM_eq_pure_map hobjects, pure_bind, List.flatMap_def]
  rfl

/-! ### First names -/

/-- A first name is the text of its element, and the gender an attribute of it. The attribute is
always written, since no gender goes without saying. -/
theorem reads_person {person : PersonName} (h : person.IsTrimmed) :
    Reads style.escape NameEntry.read "name".toList (style.personTree person)
      { name := person.name, gender := style.gender person.gender } := by
  have htag : IsPlainTag "name".toList [("gender".toList, style.gender person.gender)] :=
    .of_sublist ["gender".toList] (by decide) (by decide) (by decide) (List.Sublist.refl _)
  refine ⟨_, _, rfl, isPlain_element_iff.mpr ⟨htag, ?_⟩, fun tree htree scopes => ?_⟩
  · rw [List.forall_mem_singleton]
    exact isPlain_text _
  -- The tag may have more than the record asks for, and the record asks for the text under a name
  -- of its own.
  have hread := gives_read_text style.isEscape NameEntry.layout htag h.ne_nil h.trim htree scopes
  have hcontent : (ofTexts [("$text".toList, person.name)] : Record Empty).IsContent :=
    isContent_ofTexts (List.forall_mem_singleton.mpr (by decide : "$text".toList.head? ≠ some '@'))
  have hnodup : ([("$text".toList, person.name)].map Prod.fst).Nodup := List.nodup_singleton _
  have hgender : (ofEntries [("gender".toList, style.gender person.gender)]
      (ofTexts [("$text".toList, person.name)] : Record Empty)).optional? "@gender".toList
        = some (style.gender person.gender) :=
    optional?_ofEntries htag hcontent "gender".toList (by decide)
  have hname : (ofEntries [("gender".toList, style.gender person.gender)]
      (ofTexts [("$text".toList, person.name)] : Record Empty)).required? "$text".toList
        = some person.name :=
    required?_ofTexts hnodup (by decide)
  exact hread.bind ((gives_liftM hgender _).bind ((gives_liftM hname _).bind (gives_pure _ _)))

/-- A file of first names is read back. The word of each is one for its gender, so none of them is
refused. -/
theorem parseNames_render {document : Document} {persons : List PersonName}
    (hdocument : document.Holds "names".toList (persons.map style.personTree))
    (htrim : ∀ person ∈ persons, person.IsTrimmed) :
    parseNames (document.render style.escape) = .ok persons := by
  have hentries := style.rootItems_render (by decide) (by decide)
    (fun person hperson => style.reads_person (htrim person hperson)) hdocument
  have hperson : ∀ person ∈ persons, (NameEntry.personName ∘ fun person : PersonName =>
      { name := person.name, gender := style.gender person.gender }) person
        = pure (id person) := by
    intro person hperson
    rw [Function.comp_apply, NameEntry.personName,
      Gender.ofName?_of_normalize (style.normalize_gender person.gender)]
    exact congrArg (fun name => Except.ok (PersonName.mk name person.gender))
      (htrim person hperson).trim
  rw [parseNames, hentries]
  show (persons.map _).mapM NameEntry.personName = _
  rw [List.mapM_map, mapM_eq_pure_map hperson, List.map_id]
  rfl

/-! ### Rooms -/

/-- The keys of a place are plain and distinct. -/
theorem arePlain_placeFields (place : PlaceEntry) : Field.ArePlain (placeFields place) where
  keys := (by decide : ∀ key ∈ ["name".toList, "isBeacon".toList, "isPlacement".toList],
    IsPlainName key)
  nodup := (by decide : ["name".toList, "isBeacon".toList, "isPlacement".toList].Nodup)

/-- A place is read as it is written, with both of its truth values, of which each may be left out
where it is false. -/
theorem reads_place (place : PlaceEntry) :
    Reads style.escape PlaceEntry.read "location".toList (style.placeTree place) place := by
  have hplain : IsPlainName "location".toList := by decide
  have hfields := arePlain_placeFields place
  have hname : (style.record place.name (placeFields place) ([] : List Empty)).required?
      "@name".toList = some place.name :=
    style.required?_record hplain hfields (by decide) [] List.mem_cons_self
  have hbeacon : (style.record place.name (placeFields place) ([] : List Empty)).flag?
      "@isBeacon".toList = some place.isBeacon :=
    style.flag?_record hplain hfields (by decide) [] (List.mem_cons_of_mem _ List.mem_cons_self)
  have hplacement : (style.record place.name (placeFields place) ([] : List Empty)).flag?
      "@isPlacement".toList = some place.isPlacement :=
    style.flag?_record hplain hfields (by decide) []
      (List.mem_cons_of_mem _ (List.mem_cons_of_mem _ List.mem_cons_self))
  exact style.reads_empty hplain hfields fun _ =>
    (gives_liftM hname _).bind ((gives_liftM hbeacon _).bind ((gives_liftM hplacement _).bind
      (gives_pure _ _)))

/-- A room has one key, which is plain. -/
theorem arePlain_roomFields (room : RoomEntry) : Field.ArePlain (roomFields room) where
  keys := (by decide : ∀ key ∈ ["name".toList], IsPlainName key)
  nodup := List.nodup_singleton _

/-- A room is read as it is written, with the places in it in order. There is no entry in between
here, as there is for categories: a room has no words that could fail to be understood. -/
theorem reads_room (room : RoomEntry) :
    Reads style.escape RoomEntry.read "room".toList (style.roomTree room) room := by
  obtain ⟨name, places⟩ := room
  have hplain : IsPlainName "room".toList := by decide
  have hfields := arePlain_roomFields ⟨name, places⟩
  have hplaces : ∀ place ∈ places, Reads style.escape PlaceEntry.read "location".toList
      (style.placeTree place) (id place) := fun place _ => style.reads_place place
  have hname : (style.record name (roomFields ⟨name, places⟩) (places.map id)).required?
      "@name".toList = some name :=
    style.required?_record hplain hfields (by decide) _ List.mem_cons_self
  refine style.reads_items hplain hfields (by decide) rfl hplaces fun _ =>
    (gives_liftM hname _).bind ?_
  rw [List.map_id]
  exact gives_pure _ _

/-- A file of rooms is read back: each room is followed by the places in it. So the locations of a
session are in the order of the file, and a place comes after the room that it names. -/
theorem parseLocations_render {document : Document} {rooms : List RoomEntry}
    (hdocument : document.Holds "rooms".toList (rooms.map style.roomTree))
    (htrim : ∀ room ∈ rooms, room.IsTrimmed) :
    parseLocations (document.render style.escape) = .ok (rooms.flatMap RoomEntry.contents) := by
  have hreads : ∀ room ∈ rooms, Reads style.escape RoomEntry.read "room".toList
      (style.roomTree room) (id room) := fun room _ => style.reads_room room
  have hentries := style.rootItems_render (by decide) (by decide) hreads hdocument
  have hlocations : rooms.map RoomEntry.locations = rooms.map RoomEntry.contents :=
    List.map_congr_left fun room hroom => RoomEntry.locations_eq (htrim room hroom)
  rw [parseLocations, hentries, List.map_id]
  show Except.ok (rooms.flatMap RoomEntry.locations) = _
  rw [List.flatMap_def, hlocations, List.flatMap_def]

/-! ### Gestures -/

/-- The keys of a gesture are plain and distinct. -/
theorem arePlain_gestureFields (gesture : Gesture) :
    Field.ArePlain (style.gestureFields gesture) where
  keys := (by decide : ∀ key ∈ ["name".toList, "difficulty".toList], IsPlainName key)
  nodup := (by decide : ["name".toList, "difficulty".toList].Nodup)

/-- What is read of a gesture. -/
def gestureEntry (gesture : Gesture) : GestureEntry :=
  { name := gesture.name
    tier := (style.attributes gesture.name (style.gestureFields gesture)).lookup
      "difficulty".toList }

/-- A gesture is read as an entry with its name and the word for its tier, if there is one. Unlike
the word of an object, an absent one is kept apart from an empty one. -/
theorem reads_gesture (gesture : Gesture) :
    Reads style.escape GestureEntry.read "gesture".toList (style.gestureTree gesture)
      (style.gestureEntry gesture) := by
  have hplain : IsPlainName "gesture".toList := by decide
  have hfields := style.arePlain_gestureFields gesture
  have hname : (style.record gesture.name (style.gestureFields gesture)
      ([] : List Empty)).required? "@name".toList = some gesture.name :=
    style.required?_record hplain hfields (by decide) [] List.mem_cons_self
  have hkey : "@difficulty".toList = '@' :: "difficulty".toList := by decide
  have htier : (style.record gesture.name (style.gestureFields gesture)
      ([] : List Empty)).option? "@difficulty".toList = some (style.gestureEntry gesture).tier :=
    style.option?_record hplain hfields hkey []
  exact style.reads_empty hplain hfields fun _ =>
    (gives_liftM hname _).bind ((gives_liftM htier _).bind (gives_pure _ _))

/-- The word of a gesture says its tier, and no word says that it has none. An empty word would
not do for the latter, as it is none of the names. -/
theorem gesture_gestureEntry {gesture : Gesture} (htrim : Text.trim gesture.name = gesture.name) :
    (style.gestureEntry gesture).gesture = .ok gesture := by
  have hfield : ⟨"difficulty".toList, style.tier gesture.tier, gesture.tier = .unknown⟩
      ∈ style.gestureFields gesture := List.mem_cons_of_mem _ List.mem_cons_self
  have hlookup := style.lookup_attributes gesture.name (style.arePlain_gestureFields gesture).nodup
    hfield
  have hgesture : Gesture.mk (Text.trim gesture.name) gesture.tier = gesture := by rw [htrim]
  rw [GestureEntry.gesture]
  unfold gestureEntry
  rcases hlookup with hword | ⟨hunknown, hword⟩
  · simp only [hword]
    rw [Tier.ofName?_of_normalize (style.normalize_tier gesture.tier)]
    exact congrArg Except.ok hgesture
  · simp only [hword]
    rw [← of_decide_eq_true hunknown]
    exact congrArg Except.ok hgesture

/-- A file of gestures is read back. A word that names no tier would be passed over as no tier at
all, so the words that a style has are needed here. -/
theorem parseGestures_render {document : Document} {gestures : List Gesture}
    (hdocument : document.Holds "gestures".toList (gestures.map style.gestureTree))
    (htrim : ∀ gesture ∈ gestures, Text.trim gesture.name = gesture.name) :
    parseGestures (document.render style.escape) = .ok gestures := by
  have hentries := style.rootItems_render (by decide) (by decide)
    (fun gesture _ => style.reads_gesture gesture) hdocument
  have hgesture : ∀ gesture ∈ gestures,
      (GestureEntry.gesture ∘ style.gestureEntry) gesture = pure (id gesture) :=
    fun gesture hgesture => style.gesture_gestureEntry (htrim gesture hgesture)
  rw [parseGestures, hentries]
  show (gestures.map style.gestureEntry).mapM GestureEntry.gesture = _
  rw [List.mapM_map, mapM_eq_pure_map hgesture, List.map_id]
  rfl

/-! ### Questions -/

/-- A question is read back from the two elements with its texts. It has no attributes, and
neither text may be empty, since an element without a text has none to be read. -/
theorem reads_question {question : Question} (h : question.IsTrimmed) :
    Reads style.escape Question.read "question".toList question.tree question := by
  have htag : IsPlainTag "question".toList [] := .of_isPlainName (by decide)
  have hnames : ∀ entry ∈ question.texts, IsPlainName entry.1 :=
    List.forall_mem_cons.mpr ⟨(by decide : IsPlainName "q".toList),
      List.forall_mem_singleton.mpr (by decide : IsPlainName "a".toList)⟩
  have hlookup : ∀ entry ∈ question.texts, Question.layout.lookup entry.1 = some .value :=
    List.forall_mem_cons.mpr ⟨rfl, List.forall_mem_singleton.mpr rfl⟩
  refine ⟨_, _, rfl, ?_, fun tree htree scopes => ?_⟩
  · refine isPlain_element_iff.mpr ⟨htag, List.forall_mem_map.mpr fun entry hentry => ?_⟩
    exact isPlain_element_iff.mpr ⟨.of_isPlainName (hnames entry hentry),
      List.forall_mem_singleton.mpr (isPlain_text _)⟩
  have hread := gives_read_values style.isEscape Question.layout htag hnames hlookup h.texts htree
    scopes
  have hnodup : (question.texts.map Prod.fst).Nodup :=
    (by decide : ["q".toList, "a".toList].Nodup)
  have hquestion : (ofEntries [] (ofTexts question.texts : Record Empty)).required? "q".toList
      = some question.question :=
    required?_ofTexts hnodup (by decide)
  have hanswer : (ofEntries [] (ofTexts question.texts : Record Empty)).required? "a".toList
      = some question.answer :=
    required?_ofTexts hnodup (by decide)
  refine hread.bind ((gives_liftM hquestion _).bind ((gives_liftM hanswer _).bind ?_))
  rw [h.question_trim, h.answer_trim]
  exact gives_pure _ _

/-- A file of questions is read back. An entry is the question itself, so nothing is left to be
done with it. -/
theorem parseQuestions_render {document : Document} {questions : List Question}
    (hdocument : document.Holds "questions".toList (questions.map Question.tree))
    (htrim : ∀ question ∈ questions, question.IsTrimmed) :
    parseQuestions (document.render style.escape) = .ok questions := by
  have hreads : ∀ question ∈ questions, Reads style.escape Question.read "question".toList
      question.tree (id question) := fun question hquestion =>
    style.reads_question (htrim question hquestion)
  have hentries := style.rootItems_render (by decide) (by decide) hreads hdocument
  rw [parseQuestions, hentries, List.map_id]

/-! ### All five files -/

/-- Files of entities are read back, in whatever style and layout they are written: the objects
category by category, each with its own category and familiarity; the first names with their
genders; each room followed by the places in it, with the room around them and what they are for;
the gestures with their tiers; and the questions with their answers. -/
theorem readsBack_files :
    (∀ stocks : List Stock, (∀ stock ∈ stocks, stock.IsTrimmed) →
      style.ReadsBack "categories".toList (stocks.map style.stockTree) parseObjects
        (stocks.flatMap Stock.contents)) ∧
    (∀ persons : List PersonName, (∀ person ∈ persons, person.IsTrimmed) →
      style.ReadsBack "names".toList (persons.map style.personTree) parseNames persons) ∧
    (∀ rooms : List RoomEntry, (∀ room ∈ rooms, room.IsTrimmed) →
      style.ReadsBack "rooms".toList (rooms.map style.roomTree) parseLocations
        (rooms.flatMap RoomEntry.contents)) ∧
    (∀ gestures : List Gesture, (∀ gesture ∈ gestures, Text.trim gesture.name = gesture.name) →
      style.ReadsBack "gestures".toList (gestures.map style.gestureTree) parseGestures gestures) ∧
    (∀ questions : List Question, (∀ question ∈ questions, question.IsTrimmed) →
      style.ReadsBack "questions".toList (questions.map Question.tree) parseQuestions
        questions) := by
  refine ⟨fun stocks htrim => ⟨?_, fun document h => style.parseObjects_render h htrim⟩,
    fun persons htrim => ⟨?_, fun document h => style.parseNames_render h htrim⟩,
    fun rooms htrim => ⟨?_, fun document h => style.parseLocations_render h htrim⟩,
    fun gestures htrim => ⟨?_, fun document h => style.parseGestures_render h htrim⟩,
    fun questions htrim => ⟨?_, fun document h => style.parseQuestions_render h htrim⟩⟩
  · refine Document.exists_holds _ (List.forall_mem_map.mpr fun stock _ => ?_)
    exact isTight_element _ _ (List.forall_mem_map.mpr fun _ _ => isTight_element _ _ nofun)
  · refine Document.exists_holds _ (List.forall_mem_map.mpr fun person hperson => ?_)
    exact isTight_element _ _
      (List.forall_mem_singleton.mpr (isTight_text (htrim person hperson).ne_nil
        (htrim person hperson).trim))
  · refine Document.exists_holds _ (List.forall_mem_map.mpr fun room _ => ?_)
    exact isTight_element _ _ (List.forall_mem_map.mpr fun _ _ => isTight_element _ _ nofun)
  · refine Document.exists_holds _ (List.forall_mem_map.mpr fun gesture _ => ?_)
    exact isTight_element _ _ nofun
  · refine Document.exists_holds _ (List.forall_mem_map.mpr fun question hquestion => ?_)
    refine isTight_element _ _ (List.forall_mem_map.mpr fun entry hentry => ?_)
    have htext := (htrim question hquestion).texts entry hentry
    exact isTight_element _ _ (List.forall_mem_singleton.mpr (isTight_text htext.1 htext.2))

/-- A style that leaves out all that goes without saying, except that coke is known. -/
def brief : Style where
  escape := escapeInText
  isEscape := isEscape_escapeInText
  omits _ owner := owner != "coke".toList
  familiarity := Familiarity.name
  normalize_familiarity value := by cases value <;> decide
  gender gender := Text.lowerAscii gender.name
  normalize_gender value := by cases value <;> decide
  tier := Tier.name
  normalize_tier _ := rfl

/-- A category of the files below. -/
def drinks : Category :=
  { name := "drinks".toList, defaultLocation := "bar".toList, room := [] }

/-- A file of objects on several lines. -/
def objectsDocument : Document where
  isDeclared := true
  blanks := "\n".toList
  all_isBlank := by decide
  root := .element "categories".toList [] [.text "\n  ".toList,
    .element "category".toList (brief.attributes "drinks".toList (categoryFields drinks))
      [.text "\n    ".toList, brief.objectTree ("coke".toList, .known), .text "\n    ".toList,
        .emptyElement "object".toList
          (brief.attributes "a & b".toList (brief.objectFields ("a & b".toList, .known))),
        .text "\n  ".toList],
    .text "\n".toList]
  rest := []

/-- The file as it is written. -/
def objectsFile : Text :=
  "<?xml version=\"1.0\" encoding=\"utf-8\"?>\n".toList ++ "<categories>\n".toList ++
    "  <category name=\"drinks\" defaultLocation=\"bar\">\n".toList ++
    "    <object name=\"coke\" type=\"known\"></object>\n".toList ++
    "    <object name=\"a &amp; b\"/>\n".toList ++ "  </category>\n</categories>".toList

/-- Five files as they are written, and what is read of them. -/
theorem readsBack_files_brief :
    parseObjects objectsFile
      = .ok [{ name := "coke".toList, familiarity := .known, category := drinks },
        { name := "a & b".toList, familiarity := .known, category := drinks }] ∧
    parseNames ("<names><name gender=\"female\">".toList ++ "Susan</name></names>".toList)
      = .ok [⟨"Susan".toList, .female⟩] ∧
    parseLocations ("<rooms><room name=\"kitchen\">".toList ++
        "<location name=\"bar\" isPlacement=\"true\">".toList ++
        "</location><location name=\"door\" isBeacon=\"true\">".toList ++
        "</location></room></rooms>".toList)
      = .ok [.ofRoom "kitchen".toList, .inside "bar".toList "kitchen".toList false true,
        .inside "door".toList "kitchen".toList true false] ∧
    parseGestures ("<gestures><gesture name=\"waving\" ".toList ++
        "difficulty=\"Easy\"></gesture>".toList ++
        "<gesture name=\"pointing\"></gesture></gestures>".toList)
      = .ok [⟨"waving".toList, .easy⟩, ⟨"pointing".toList, .unknown⟩] ∧
    parseQuestions ("<questions><question><q>Is 1 &lt; 2?</q>".toList ++
        "<a>Yes</a></question></questions>".toList)
      = .ok [⟨"Is 1 < 2?".toList, "Yes".toList⟩] := by
  obtain ⟨hobjects, hnames, hrooms, hgestures, hquestions⟩ := brief.readsBack_files
  have hstocks := (hobjects [⟨drinks, [("coke".toList, .known), ("a & b".toList, .known)]⟩]
    (List.forall_mem_singleton.mpr ⟨by decide, by decide, by decide, by decide⟩)).2
      objectsDocument rfl
  have hpersons := (hnames [⟨"Susan".toList, .female⟩]
    (List.forall_mem_singleton.mpr ⟨by decide, by decide⟩)).2
      (.inOneLine "names".toList [brief.personTree ⟨"Susan".toList, .female⟩]) rfl
  have hplaces := (hrooms [⟨"kitchen".toList, [⟨"bar".toList, false, true⟩,
      ⟨"door".toList, true, false⟩]⟩]
    (List.forall_mem_singleton.mpr ⟨by decide, by decide⟩)).2
      (.inOneLine "rooms".toList [brief.roomTree ⟨"kitchen".toList,
        [⟨"bar".toList, false, true⟩, ⟨"door".toList, true, false⟩]⟩]) rfl
  have hwaving := (hgestures [⟨"waving".toList, .easy⟩, ⟨"pointing".toList, .unknown⟩]
    (by decide)).2 (.inOneLine "gestures".toList [brief.gestureTree ⟨"waving".toList, .easy⟩,
      brief.gestureTree ⟨"pointing".toList, .unknown⟩]) rfl
  have hasked := (hquestions [⟨"Is 1 < 2?".toList, "Yes".toList⟩]
    (List.forall_mem_singleton.mpr ⟨by decide, by decide, by decide, by decide⟩)).2
      (.inOneLine "questions".toList [Question.tree ⟨"Is 1 < 2?".toList, "Yes".toList⟩]) rfl
  -- What is written is evaluated, what is read of it is not.
  have hobjectsFile : objectsDocument.render brief.escape = objectsFile := by decide +kernel
  rw [hobjectsFile] at hstocks
  refine ⟨hstocks, ?_, ?_, ?_, ?_⟩
  · exact (congrArg parseNames (by decide +kernel)).trans hpersons
  · exact (congrArg parseLocations (by decide +kernel)).trans hplaces
  · exact (congrArg parseGestures (by decide +kernel)).trans hwaving
  · exact (congrArg parseQuestions (by decide +kernel)).trans hasked

end Style

end TaskGrammar
