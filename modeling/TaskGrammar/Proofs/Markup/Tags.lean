import TaskGrammar.Markup.Attribute
import TaskGrammar.Markup.Token
import TaskGrammar.Proofs.Markup.Escapes
import TaskGrammar.Proofs.Text.Positions

/-!
# `TaskGrammar.Proofs.Markup.Tags`: a tag that is written can be read

Names are made of letters, digits, hyphens and colons, so none of their characters ends a
name or a tag. Values may hold any characters, but stand between quotation marks, and
their own ones are escaped.

* `Token.Passes`: texts that the reader of a tag passes over on its way to the end.
* `Attribute.ofText?_flatMap_renderAttribute`: the attributes of a tag are read back.
* `Token.scan?_startTag` / `scan?_emptyTag` / `scan?_endTag`: so are tags.
-/

set_option autoImplicit false

namespace TaskGrammar.Markup

/-- A function that succeeds at each place succeeds on the list, and gives there what it gives at
each place. -/
theorem mapM_eq_pure_map {m : Type → Type} [Monad m] [LawfulMonad m] {α β : Type} {f : α → m β}
    {g : α → β} {l : List α} (h : ∀ a ∈ l, f a = pure (g a)) : l.mapM f = pure (l.map g) := by
  induction l with
  | nil => exact List.mapM_nil
  | cons a l ih =>
    rw [List.forall_mem_cons] at h
    rw [List.mapM_cons, h.1, pure_bind, ih h.2, pure_bind, List.map_cons]

/-! ### Names -/

/-- The characters of names. -/
def isNameChar (c : Char) : Bool :=
  c.isAlphanum || c == '-' || c == ':'

/-- The names of elements and attributes. -/
structure IsName (name : Text) : Prop where
  ne_nil : name ≠ []
  all : name.all isNameChar = true

/-- A name character differs from any character that is none. Every mark that ends a part of a tag
is such a character, so most of what is asked below of names comes from here. -/
theorem ne_of_isNameChar {c mark : Char} (hc : isNameChar c = true)
    (hmark : isNameChar mark = false) : c ≠ mark := by
  rintro rfl
  rw [hc] at hmark
  cases hmark

/-- No name character is a blank, as none of the four blanks is one of them. -/
theorem isBlank_eq_false_of_isNameChar {c : Char} (hc : isNameChar c = true) :
    isBlank c = false := by
  have hspace : c ≠ ' ' := ne_of_isNameChar hc (by decide)
  have htab : c ≠ '\t' := ne_of_isNameChar hc (by decide)
  have hfeed : c ≠ '\n' := ne_of_isNameChar hc (by decide)
  have hreturn : c ≠ '\r' := ne_of_isNameChar hc (by decide)
  simp [isBlank, hspace, htab, hfeed, hreturn]

/-- Each character of a name differs from a mark that is no name character. -/
theorem IsName.notMem {name : Text} (h : IsName name) {mark : Char}
    (hmark : isNameChar mark = false) : mark ∉ name := by
  intro hmem
  exact ne_of_isNameChar (List.all_eq_true.mp h.all mark hmem) hmark rfl

/-- No character of a name is a blank. -/
theorem IsName.isBlank_eq_false {name : Text} (h : IsName name) {c : Char} (hc : c ∈ name) :
    isBlank c = false :=
  isBlank_eq_false_of_isNameChar (List.all_eq_true.mp h.all c hc)

/-- A text without a mark reaches as far as the next mark. -/
theorem all_ne_of_notMem {t : Text} {mark : Char} (h : mark ∉ t) :
    t.all (fun c => c != mark) = true := by
  rw [List.all_eq_true]
  intro c hc
  have hne : c ≠ mark := fun e => h (e ▸ hc)
  simpa using hne

/-! ### Attributes -/

namespace Attribute

open Event

/-- A quoted value is read up to the mark that ends it. -/
theorem scanValue_quoted {raw : Text} (hraw : '"' ∉ raw) (rest : Text) :
    scanValue ('"' :: (raw ++ '"' :: rest)) = (some raw, rest) := by
  obtain ⟨htake, hdrop⟩ := Text.takeWhile_append_cons rest (all_ne_of_notMem hraw)
    (show ('"' != '"') = false by decide)
  simp only [scanValue, true_or, if_true, htake, hdrop]

/-- A name and the quoted value after it are read, and the rest goes on. The key is not among
those that were given before, so the reader takes it even where keys have to differ. -/
theorem scanWithin_renderAttribute (distinct : Bool) {given : List Text} {entry : Text × Text}
    (hname : IsName entry.1) (hnew : entry.1 ∉ given) (bound : Nat) (rest : Text) :
    scanWithin distinct given (bound + 1) (renderAttribute entry ++ rest)
      = some { key := entry.1, raw := entry.2.flatMap escapeInValue }
        :: scanWithin distinct (entry.1 :: given) bound rest := by
  obtain ⟨name, value⟩ := entry
  obtain ⟨c, tail, rfl⟩ := List.exists_cons_of_ne_nil hname.ne_nil
  have hall := hname.all
  rw [List.all_cons, Bool.and_eq_true] at hall
  have hkey : tail.all (fun d => !endsKey d) = true := by
    rw [List.all_eq_true]
    intro d hd
    have hd := List.all_eq_true.mp hall.2 d hd
    have hequals : d ≠ '=' := ne_of_isNameChar hd (by decide)
    simp [endsKey, hequals, isBlank_eq_false_of_isNameChar hd]
  -- What stands behind the key: the equals sign, and the value between its marks.
  obtain ⟨behind, hbehind⟩ : ∃ behind,
      '"' :: (value.flatMap escapeInValue ++ '"' :: rest) = behind := ⟨_, rfl⟩
  have hsource : renderAttribute (c :: tail, value) ++ rest
      = ' ' :: c :: (tail ++ '=' :: behind) := by
    simp [renderAttribute, ← hbehind]
  have hstart : (' ' :: c :: (tail ++ '=' :: behind)).dropWhile isBlank
      = c :: (tail ++ '=' :: behind) := by
    rw [List.dropWhile_cons_of_pos (by decide), List.dropWhile_cons_of_neg]
    simp [isBlank_eq_false_of_isNameChar hall.1]
  obtain ⟨htake, hdrop⟩ := Text.takeWhile_append_cons behind hkey
    (show (!endsKey '=') = false by decide)
  have hequals : ('=' :: behind).dropWhile isBlank = '=' :: behind :=
    List.dropWhile_cons_of_neg (by decide)
  have hquote : behind.dropWhile isBlank = behind := by
    rw [← hbehind]
    exact List.dropWhile_cons_of_neg (by decide)
  have hvalue : scanValue behind = (some (value.flatMap escapeInValue), rest) := by
    rw [← hbehind, scanValue_quoted (notMem_escapeInValue value)]
  rw [hsource, scanWithin, hstart]
  simp only [hdrop, htake, hequals, hquote, hvalue, hnew, and_false, if_false, Option.map_some]

/-- Attributes of different names are read one after the other. The bound is what the recursion of
the reader goes down on; each attribute takes one from it. -/
theorem scanWithin_flatMap_renderAttribute (distinct : Bool) {given : List Text}
    {entries : List (Text × Text)} {bound : Nat} (hnames : ∀ entry ∈ entries, IsName entry.1)
    (hnodup : (entries.map Prod.fst).Nodup) (hnew : ∀ entry ∈ entries, entry.1 ∉ given)
    (hbound : entries.length ≤ bound) :
    scanWithin distinct given bound (entries.flatMap renderAttribute)
      = entries.map fun entry => some { key := entry.1, raw := entry.2.flatMap escapeInValue } := by
  induction entries generalizing given bound with
  | nil => cases bound <;> rfl
  | cons entry entries ih =>
    rw [List.forall_mem_cons] at hnames hnew
    rw [List.map_cons, List.nodup_cons] at hnodup
    obtain ⟨bound, rfl⟩ : ∃ less, bound = less + 1 :=
      Nat.exists_eq_add_one_of_ne_zero (by rw [List.length_cons] at hbound; omega)
    -- The keys that are still to come differ from this one and from all before it.
    have hlater : ∀ other ∈ entries, other.1 ∉ entry.1 :: given := by
      intro other hother hmem
      rcases List.mem_cons.mp hmem with heq | hgiven
      · exact hnodup.1 (heq ▸ List.mem_map_of_mem hother)
      · exact hnew.2 other hother hgiven
    rw [List.flatMap_cons, scanWithin_renderAttribute distinct hnames.1 hnew.1,
      ih hnames.2 hnodup.2 hlater (Nat.le_of_succ_le_succ hbound), List.map_cons]

/-- All attributes of a tag are read, whether the reader wants them to differ or not. The first
kind of reader is for elements, the second for the prefixes that a tag declares. -/
theorem scanAll_flatMap_renderAttribute (distinct : Bool) {entries : List (Text × Text)}
    (hnames : ∀ entry ∈ entries, IsName entry.1) (hnodup : (entries.map Prod.fst).Nodup) :
    scanAll distinct (entries.flatMap renderAttribute)
      = entries.map fun entry => some { key := entry.1, raw := entry.2.flatMap escapeInValue } := by
  -- The reader allows for as many attributes as there are characters.
  have hbound : entries.length ≤ (entries.flatMap renderAttribute).length := by
    clear hnames hnodup
    induction entries with
    | nil => exact Nat.le_refl 0
    | cons entry entries ih =>
      have hpos : 0 < (renderAttribute entry).length := Nat.succ_pos _
      rw [List.flatMap_cons, List.length_append, List.length_cons]
      omega
  exact scanWithin_flatMap_renderAttribute distinct hnames hnodup (fun _ _ => List.not_mem_nil)
    hbound

/-- The attributes of a tag are read back, their values as they were escaped. -/
theorem ofText?_flatMap_renderAttribute {entries : List (Text × Text)}
    (hnames : ∀ entry ∈ entries, IsName entry.1) (hnodup : (entries.map Prod.fst).Nodup) :
    ofText? (entries.flatMap renderAttribute)
      = some (entries.map fun entry =>
          { key := entry.1, raw := entry.2.flatMap escapeInValue }) := by
  rw [ofText?, scanAll_flatMap_renderAttribute true hnames hnodup, List.mapM_map]
  exact List.mapM_pure

end Attribute

/-! ### Tags -/

namespace Token

open Event

/-- What the reader of a tag passes over: no character in it ends the tag, and all quotation marks
in it come in pairs. Such texts can be put together, so a tag passes because its parts do. -/
def Passes (content : Text) : Prop :=
  ∀ rest, scanTag? none (content ++ rest)
    = (scanTag? none rest).map fun found => (content ++ found.1, found.2)

/-- Nothing is passed over at once. -/
theorem Passes.nil : Passes [] := by
  intro rest
  show scanTag? none rest = _
  cases scanTag? none rest <;> rfl

/-- Two such texts are passed over one after the other: behind the first, no mark is open. -/
theorem Passes.append {first second : Text} (h : Passes first) (h' : Passes second) :
    Passes (first ++ second) := by
  intro rest
  rw [List.append_assoc, h, h', Option.map_map]
  simp only [Function.comp_def, List.append_assoc]

/-- And so are any number of them. -/
theorem Passes.flatMap {α : Type} {f : α → Text} {l : List α} (h : ∀ a ∈ l, Passes (f a)) :
    Passes (l.flatMap f) := by
  induction l with
  | nil => exact .nil
  | cons a l ih =>
    rw [List.forall_mem_cons] at h
    exact h.1.append (ih h.2)

/-- A character that neither ends the tag nor starts a quoted text is passed over. -/
theorem passes_singleton {c : Char} (hend : c ≠ '>') (hdouble : c ≠ '"') (hsingle : c ≠ '\'') :
    Passes [c] := by
  intro rest
  simp only [List.cons_append, List.nil_append, scanTag?, hend, hdouble, hsingle, or_self, if_false]

/-- A name is passed over, each of its characters by itself. -/
theorem passes_of_isName {name : Text} (h : IsName name) : Passes name := by
  have hsplit : name = name.flatMap fun c => [c] := by simp
  rw [hsplit]
  refine Passes.flatMap fun c hc => ?_
  have hc := List.all_eq_true.mp h.all c hc
  exact passes_singleton (ne_of_isNameChar hc (by decide)) (ne_of_isNameChar hc (by decide))
    (ne_of_isNameChar hc (by decide))

/-- A quoted text is passed over, whatever is in it, brackets and all. Only the mark that closes
it must not be in it, for which a value is escaped. -/
theorem passes_quoted {raw : Text} (hraw : '"' ∉ raw) : Passes ('"' :: (raw ++ ['"'])) := by
  -- Inside, the reader waits for the mark and looks at nothing else.
  have hinside : ∀ rest, scanTag? (some '"') (raw ++ '"' :: rest)
      = (scanTag? none rest).map fun found => (raw ++ '"' :: found.1, found.2) := by
    intro rest
    induction raw with
    | nil => simp only [List.nil_append, scanTag?, if_true]
    | cons c raw ih =>
      rw [List.mem_cons, not_or] at hraw
      simp only [List.cons_append, scanTag?, if_neg (Ne.symm hraw.1), ih hraw.2, Option.map_map,
        Function.comp_def]
  intro rest
  have hend : ('"' : Char) ≠ '>' := by decide
  simp only [List.cons_append, List.append_assoc, List.nil_append, scanTag?, hend, if_false,
    true_or, if_true, hinside, Option.map_map, Function.comp_def]

/-- An attribute is passed over: a blank, its key, the equals sign and the quoted value, in which
no mark is left that would end it. -/
theorem passes_renderAttribute {entry : Text × Text} (h : IsName entry.1) :
    Passes (renderAttribute entry) := by
  have hparts : renderAttribute entry = [' '] ++ entry.1 ++ ['=']
      ++ '"' :: (entry.2.flatMap escapeInValue ++ ['"']) := by
    simp [renderAttribute]
  rw [hparts]
  have hblank : Passes [' '] := passes_singleton (by decide) (by decide) (by decide)
  have hequals : Passes ['='] := passes_singleton (by decide) (by decide) (by decide)
  exact ((hblank.append (passes_of_isName h)).append hequals).append
    (passes_quoted (notMem_escapeInValue entry.2))

/-- Names and attributes as the writer puts them into tags. -/
structure IsTag (name : Text) (entries : List (Text × Text)) : Prop where
  name : IsName name
  keys : ∀ entry ∈ entries, IsName entry.1
  nodup : (entries.map Prod.fst).Nodup

variable {name : Text} {entries : List (Text × Text)}

/-- A tag is passed over up to the bracket that ends it. -/
theorem passes_renderTag (h : IsTag name entries) : Passes (renderTag name entries) :=
  (passes_of_isName h.name).append
    (Passes.flatMap fun entry hentry => passes_renderAttribute (h.keys entry hentry))

/-- What is passed over up to the end of the tag is its content. -/
theorem scanTag?_of_passes {content : Text} (h : Passes content) (rest : Text) :
    scanTag? none (content ++ '>' :: rest) = some (content, rest) := by
  rw [h]
  simp [scanTag?]

/-- The name of a tag ends where its attributes start, if not with the tag. Each attribute has a
blank in front, and no name has one in it. -/
theorem span_renderTag (h : IsTag name entries) :
    (renderTag name entries).takeWhile (fun c => !isBlank c) = name ∧
      (renderTag name entries).dropWhile (fun c => !isBlank c)
        = entries.flatMap renderAttribute := by
  have hname : name.all (fun c => !isBlank c) = true := by
    rw [List.all_eq_true]
    intro c hc
    simp [h.name.isBlank_eq_false hc]
  refine Text.takeWhile_append_of_head hname fun c hc => ?_
  cases entries with
  | nil => cases hc
  | cons entry entries =>
    obtain rfl : ' ' = c := Option.some.inj hc
    decide

/-- A tag has no slash of its own at its end, so a slash there means that the element is empty. It
ends with its name or with the mark that closes a value. -/
theorem getLast?_renderTag (h : IsTag name entries) :
    (renderTag name entries).getLast? ≠ some '/' := by
  rcases List.eq_nil_or_concat entries with rfl | ⟨init, last, rfl⟩
  · rw [renderTag, List.flatMap_nil, List.append_nil]
    intro hlast
    exact h.name.notMem (by decide) (List.mem_of_getLast? hlast)
  · -- The last attribute ends with a quotation mark.
    have hend : renderTag name (init.concat last) = (name ++ init.flatMap renderAttribute ++
        ([' '] ++ last.1 ++ ['=', '"'] ++ last.2.flatMap escapeInValue)) ++ ['"'] := by
      simp [renderTag, renderAttribute, List.flatMap_append]
    rw [hend, List.getLast?_concat]
    decide

/-- The content of a start tag is taken apart into its name and its attributes. -/
theorem ofTag_renderTag (h : IsTag name entries) :
    ofTag (renderTag name entries) = openTag name (entries.flatMap renderAttribute) false := by
  obtain ⟨htake, hdrop⟩ := span_renderTag h
  simp only [ofTag, getLast?_renderTag h, if_false, htake, hdrop, decide_false]

/-- That of an empty tag is taken apart likewise, the slash being put aside. -/
theorem ofTag_renderTag_slash (h : IsTag name entries) :
    ofTag (renderTag name entries ++ ['/'])
      = openTag name (entries.flatMap renderAttribute) true := by
  obtain ⟨htake, hdrop⟩ := span_renderTag h
  simp only [ofTag, List.getLast?_concat, List.dropLast_concat, if_true, htake, hdrop, decide_true]

/-- What starts with a name is a start tag. The other kinds of markup start with one of three
signs, and none of them is a name character. -/
theorem scanMarkup?_renderTag (h : IsTag name entries) (rest : Text) :
    scanMarkup? (renderTag name entries ++ rest)
      = (scanTag? none (renderTag name entries ++ rest)).map fun found =>
          (ofTag found.1, found.2) := by
  obtain ⟨c, tail, rfl⟩ := List.exists_cons_of_ne_nil h.name.ne_nil
  have hc := List.all_eq_true.mp h.name.all c List.mem_cons_self
  have hbang : c ≠ '!' := ne_of_isNameChar hc (by decide)
  have hquery : c ≠ '?' := ne_of_isNameChar hc (by decide)
  have hslash : c ≠ '/' := ne_of_isNameChar hc (by decide)
  rw [renderTag, List.cons_append, List.cons_append, scanMarkup?]
  · exact List.cons_ne_nil _ _
  · exact fun _ heq => hbang (List.cons.inj heq).1
  · exact fun _ heq => hquery (List.cons.inj heq).1
  · exact fun _ heq => hslash (List.cons.inj heq).1

/-- A start tag is read as one token, and what follows it is left. This is what `IsTag` is for: a
name or a key of other characters could end the tag too early. -/
theorem scan?_startTag (h : IsTag name entries) (rest : Text) :
    scan? ((startTag name entries).render ++ rest)
      = some (openTag name (entries.flatMap renderAttribute) false, rest) := by
  have hsource : (startTag name entries).render ++ rest
      = '<' :: (renderTag name entries ++ '>' :: rest) := by
    show ['<'] ++ renderTag name entries ++ ['>'] ++ rest = _
    simp only [List.append_assoc, List.cons_append, List.nil_append]
  rw [hsource, scan?, if_pos rfl, scanMarkup?_renderTag h, scanTag?_of_passes (passes_renderTag h),
    Option.map_some, ofTag_renderTag h]

/-- An empty tag is read as one token as well, its slash passed over with the rest. The slash is
taken for what it is only when the content of the tag is taken apart. -/
theorem scan?_emptyTag (h : IsTag name entries) (rest : Text) :
    scan? ((emptyTag name entries).render ++ rest)
      = some (openTag name (entries.flatMap renderAttribute) true, rest) := by
  have hsource : (emptyTag name entries).render ++ rest
      = '<' :: (renderTag name entries ++ ['/'] ++ '>' :: rest) := by
    show ['<'] ++ renderTag name entries ++ ['/', '>'] ++ rest = _
    simp only [List.append_assoc, List.cons_append, List.nil_append]
  have hslash : Passes ['/'] := passes_singleton (by decide) (by decide) (by decide)
  rw [hsource, scan?, if_pos rfl, List.append_assoc, scanMarkup?_renderTag h, ← List.append_assoc,
    scanTag?_of_passes ((passes_renderTag h).append hslash), Option.map_some,
    ofTag_renderTag_slash h]

/-- An end tag is its name between brackets. No blank stands at the end of a name, so nothing is
trimmed away. -/
theorem scan?_endTag (h : IsName name) (rest : Text) :
    scan? ((endTag name).render ++ rest) = some (closeTag name, rest) := by
  have hsource : (endTag name).render ++ rest = '<' :: '/' :: (name ++ '>' :: rest) := by
    show ['<', '/'] ++ name ++ ['>'] ++ rest = _
    simp only [List.append_assoc, List.cons_append, List.nil_append]
  have htrim : Text.dropEndWhile isBlank name = name := by
    have hall : ∀ c ∈ name.reverse, ¬ isBlank c = true := by
      intro c hc
      simp [h.isBlank_eq_false (List.mem_reverse.mp hc)]
    have hne : name.reverse ≠ [] := fun hnil => h.ne_nil (List.reverse_eq_nil_iff.mp hnil)
    obtain ⟨last, init, hreverse⟩ := List.exists_cons_of_ne_nil hne
    rw [hreverse] at hall
    rw [Text.dropEndWhile, hreverse, List.dropWhile_cons_of_neg (hall last List.mem_cons_self),
      ← hreverse, List.reverse_reverse]
  have hend : ofEndTag name = closeTag name := by
    rw [ofEndTag, htrim]
    obtain ⟨c, tail, rfl⟩ := List.exists_cons_of_ne_nil h.ne_nil
    rfl
  rw [hsource, scan?, if_pos rfl, scanMarkup?, scanTag?_of_passes (passes_of_isName h),
    Option.map_some, hend]

/-- An instruction reaches to the first mark that ends one. The induction is on its content, in
which no character could begin such a mark. -/
theorem splitAt?_instruction {content : Text} (hcontent : '?' ∉ content) (rest : Text) :
    splitAt? "?>".toList (content ++ '?' :: '>' :: rest) = some (content, rest) := by
  have hmark : "?>".toList = ['?', '>'] := by decide
  rw [hmark]
  induction content with
  | nil => simp [splitAt?]
  | cons c content ih =>
    rw [List.mem_cons, not_or] at hcontent
    have hother : ['?', '>'].isPrefixOf (c :: (content ++ '?' :: '>' :: rest)) = false := by
      simp [List.isPrefixOf, hcontent.1]
    rw [List.cons_append, splitAt?, if_neg (by rw [hother]; decide), ih hcontent.2]
    rfl

/-- The declaration of a document is an aside. It says in which encoding the document is, and the
reader of nodes needs nothing of it. -/
theorem scan?_declaration (rest : Text) :
    scan? (declaration.render ++ rest) = some (aside, rest) := by
  obtain ⟨content, hcontent, hsource⟩ : ∃ content, '?' ∉ 'x' :: content ∧
      declaration.render = '<' :: '?' :: ('x' :: content ++ ['?', '>']) :=
    ⟨"ml version=\"1.0\" encoding=\"utf-8\"".toList, by decide, by decide⟩
  have hsplit := splitAt?_instruction hcontent rest
  have happend : declaration.render ++ rest
      = '<' :: '?' :: ('x' :: content ++ '?' :: '>' :: rest) := by
    rw [hsource]
    simp only [List.cons_append, List.append_assoc, List.nil_append]
  have hhead : ¬ ('x' :: content ++ '?' :: '>' :: rest).head? = some '>' := by
    rw [List.cons_append, List.head?_cons]
    decide
  rw [happend, scan?, if_pos rfl, scanMarkup?, if_neg hhead, hsplit]
  rfl

/-- Text up to the next tag, or to the end, is one token. It stays as it was written, since
references are resolved later. -/
theorem scan?_data {raw rest : Text} (hne : raw ≠ []) (hraw : '<' ∉ raw)
    (hrest : ∀ c, rest.head? = some c → c = '<') :
    scan? (raw ++ rest) = some (data raw, rest) := by
  obtain ⟨c, tail, rfl⟩ := List.exists_cons_of_ne_nil hne
  rw [List.mem_cons, not_or] at hraw
  obtain ⟨htake, hdrop⟩ := Text.takeWhile_append_of_head (all_ne_of_notMem hraw.2) fun d hd => by
    rw [hrest d hd]
    decide
  rw [List.cons_append, scan?, if_neg (Ne.symm hraw.1), htake, hdrop]

end Token

end TaskGrammar.Markup
