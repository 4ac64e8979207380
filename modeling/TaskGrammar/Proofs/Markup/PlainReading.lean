import Mathlib.Data.List.Basic
import TaskGrammar.Proofs.Markup.Tags

/-!
# `TaskGrammar.Proofs.Markup.PlainReading`: what is written is read back

A plain reading of a document makes events of its tokens again: it resolves the references
in texts and attribute values, and passes asides over. It cannot tell two texts in a row
from one, nor an empty text from none, and takes the line breaks of the layout for texts.

* `Event.readAll?` is this reading, `Event.joined` what is left of the events that it
  cannot tell apart.
* `readAll?_renderAll`: a document that starts with its declaration is read back, with its
  layout.
* `flatMap_joined_laidOut` / `filterMap_joined_laidOut`: to someone who passes over line feeds
  and tabs, or only looks at tags, its events are those that were written.
* `withoutLayout_joined_laidOut`: without the texts that are layout, its events are left, if
  no text of its own has a line break.
-/

set_option autoImplicit false

namespace TaskGrammar.Markup

/-- The attributes of a tag, with the references in their values resolved. -/
def Attribute.readAll? (t : Text) : Option (List (Text × Text)) :=
  (ofText? t).bind fun entries => entries.mapM fun entry =>
    (resolve? entry.raw).map fun value => (entry.key, value)

namespace Event

/-- The event that a token stands for. -/
def ofToken? : Token → Option Event
  | .openTag name attributes true => (Attribute.readAll? attributes).map (.emptyTag name)
  | .openTag name attributes false => (Attribute.readAll? attributes).map (.startTag name)
  | .closeTag name => some (.endTag name)
  | .data raw => (resolve? raw).map .text
  | _ => none

/-- The events that tokens stand for. -/
def ofTokens? : List Token → Option (List Event)
  | [] => some []
  | .aside :: rest => ofTokens? rest
  | token :: rest =>
    (ofToken? token).bind fun event => (ofTokens? rest).map fun events => event :: events

/-- Reads all of a document. -/
def readAll? (t : Text) : Option (List Event) :=
  ofTokens? (Token.tokens t)

/-! ### Reading events one by one -/

/-- Events other than declarations whose names can be written. -/
def IsPlain : Event → Prop
  | declaration => False
  | startTag name attributes => Token.IsTag name attributes
  | emptyTag name attributes => Token.IsTag name attributes
  | endTag name => IsName name
  | text _ => True

/-- A token that stands for an event is read as this event, in front of those of the rest. Asides
stand for none, so this is not about them. -/
theorem ofTokens?_cons {token : Token} {event : Event} (h : ofToken? token = some event)
    (rest : List Token) :
    ofTokens? (token :: rest) = (ofTokens? rest).map fun events => event :: events := by
  cases token with
  | aside => cases h
  | _ => simp only [ofTokens?, h, Option.bind_some]

/-- Where nothing is left there are no tokens. -/
theorem tokens_nil : Token.tokens [] = [] := by
  rw [Token.tokens, if_pos rfl]

/-- The tokens of a text are its first one and those of the rest. `Token.tokens` recurses along
the length of the text and is not unfolded by the others; they use this equation. -/
theorem tokens_of_scan? {t rest : Text} {token : Token} (h : Token.scan? t = some (token, rest)) :
    Token.tokens t = token :: Token.tokens rest := by
  have hne : t ≠ [] := by
    rintro rfl
    cases h
  rw [Token.tokens, if_neg hne]
  split
  · rename_i hnone
    rw [hnone] at h
    cases h
  · rename_i other rest' hother
    rw [hother] at h
    cases h
    rfl

/-- Attributes are read back with their values, in their order. The keys of a tag have to differ
for it, or the reader would refuse it. -/
theorem readAll?_flatMap_renderAttribute {name : Text} {entries : List (Text × Text)}
    (h : Token.IsTag name entries) :
    Attribute.readAll? (entries.flatMap renderAttribute) = some entries := by
  rw [Attribute.readAll?, Attribute.ofText?_flatMap_renderAttribute h.keys h.nodup,
    Option.bind_some, List.mapM_map]
  have hentry : ∀ entry ∈ entries, ((fun entry : Attribute =>
      (resolve? entry.raw).map fun value => (entry.key, value)) ∘ fun entry : Text × Text =>
        ({ key := entry.1, raw := entry.2.flatMap escapeInValue } : Attribute)) entry
      = pure (id entry) := by
    intro entry _
    simp only [Function.comp_apply, resolve?_escapeInValue, Option.map_some, id_eq,
      Option.pure_def]
  rw [mapM_eq_pure_map hentry, List.map_id, Option.pure_def]

/-- A tag that is written is read back, whatever stands behind it. There is one case for each kind
of tag, and they share how attributes are read. -/
theorem exists_token {event : Event} (h : event.IsPlain) (htag : event.isText = false) :
    ∃ token, ofToken? token = some event ∧
      ∀ rest, Token.scan? (event.render ++ rest) = some (token, rest) := by
  cases event with
  | declaration => cases h
  | text content => cases htag
  | endTag name => exact ⟨.closeTag name, rfl, Token.scan?_endTag h⟩
  | startTag name entries =>
    refine ⟨_, ?_, Token.scan?_startTag h⟩
    rw [ofToken?, readAll?_flatMap_renderAttribute h, Option.map_some]
  | emptyTag name entries =>
    refine ⟨_, ?_, Token.scan?_emptyTag h⟩
    rw [ofToken?, readAll?_flatMap_renderAttribute h, Option.map_some]

/-- Every event that is no text starts with the mark of a tag. -/
theorem head?_render {event : Event} (htag : event.isText = false) (rest : Text) {c : Char}
    (hc : (event.render ++ rest).head? = some c) : c = '<' := by
  cases event with
  | text content => cases htag
  | _ => exact (Option.some.inj hc).symm

/-- An event that is no tag is a text. The proofs below split by this, since to join texts no kind
of tag differs from another. -/
theorem exists_text {event : Event} (h : ¬ event.isText = false) :
    ∃ content, event = text content := by
  cases event with
  | text content => exact ⟨content, rfl⟩
  | _ => exact absurd rfl h

/-! ### Texts in a row -/

/-- Puts a text before events: an empty one is nothing, and any other goes on with the text
that is there. -/
def joinText (content : Text) : List Event → List Event
  | text more :: rest => text (content ++ more) :: rest
  | rest => if content = [] then rest else text content :: rest

/-- Events with texts in a row joined and without empty texts. -/
def joined : List Event → List Event
  | [] => []
  | text content :: rest => joinText content (joined rest)
  | event :: rest => event :: joined rest

/-- A tag stays where it is, and what follows is joined on its own. -/
theorem joined_cons_of_isText {event : Event} (htag : event.isText = false) (rest : List Event) :
    joined (event :: rest) = event :: joined rest := by
  cases event with
  | text content => cases htag
  | _ => rfl

/-- A text in front of a tag is an event of its own, unless it is empty. -/
theorem joinText_cons_of_isText {event : Event} (htag : event.isText = false) (content : Text)
    (rest : List Event) :
    joinText content (event :: rest)
      = if content = [] then event :: rest else text content :: event :: rest := by
  cases event with
  | text more => cases htag
  | _ => rfl

/-- An empty text in front of events is nothing. -/
@[simp]
theorem joinText_nil (events : List Event) : joinText [] events = events := by
  cases events with
  | nil => rfl
  | cons event events =>
    cases event with
    | text content => rfl
    | _ => rfl

/-- A text before a text before events is both of them before the events, even if one of them is
empty. -/
theorem joinText_joinText (content more : Text) (events : List Event) :
    joinText content (joinText more events) = joinText (content ++ more) events := by
  by_cases hmore : more = []
  · rw [hmore, joinText_nil, List.append_nil]
  · have hne : content ++ more ≠ [] := fun h => hmore (List.append_eq_nil_iff.mp h).2
    cases events with
    | nil => simp only [joinText, if_neg hmore, if_neg hne]
    | cons event events =>
      by_cases htag : event.isText = false
      · rw [joinText_cons_of_isText htag, joinText_cons_of_isText htag, if_neg hmore, if_neg hne,
          joinText]
      · obtain ⟨last, rfl⟩ := exists_text htag
        simp only [joinText, List.append_assoc]

/-- A text does not go past the next tag, so what stands from this tag on is as it was. It is
joined with the text in front of the tag, or is an event of its own. -/
theorem joinText_append_cons {event : Event} (htag : event.isText = false) (content : Text)
    (before after : List Event) :
    joinText content (before ++ event :: after) = joinText content before ++ event :: after := by
  cases before with
  | nil =>
    rw [List.nil_append, joinText_cons_of_isText htag]
    simp only [joinText]
    split <;> rfl
  | cons first before =>
    by_cases hfirst : first.isText = false
    · rw [List.cons_append, joinText_cons_of_isText hfirst, joinText_cons_of_isText hfirst]
      split <;> rfl
    · obtain ⟨more, rfl⟩ := exists_text hfirst
      rfl

/-- Joining does not reach over a tag. So a document is joined part by part, with the tags as the
places to cut it. -/
theorem joined_append_cons {event : Event} (htag : event.isText = false)
    (before after : List Event) :
    joined (before ++ event :: after) = joined before ++ event :: joined after := by
  induction before with
  | nil => exact joined_cons_of_isText htag after
  | cons first before ih =>
    by_cases hfirst : first.isText = false
    · rw [List.cons_append, joined_cons_of_isText hfirst, joined_cons_of_isText hfirst, ih,
        List.cons_append]
    · obtain ⟨content, rfl⟩ := exists_text hfirst
      rw [List.cons_append, joined, joined, ih, joinText_append_cons htag]

/-! ### Reading all events -/

/-- A run of text is read as one text, up to the next tag. If it is empty there is no token for it
and no text. -/
theorem ofTokens?_tokens_run {content rest : Text} (hrest : ∀ c, rest.head? = some c → c = '<') :
    ofTokens? (Token.tokens (content.flatMap escapeInText ++ rest))
      = (ofTokens? (Token.tokens rest)).map fun events =>
          if content = [] then events else text content :: events := by
  by_cases hcontent : content = []
  · rw [hcontent, List.flatMap_nil, List.nil_append]
    simp
  · have hne : content.flatMap escapeInText ≠ [] :=
      fun h => hcontent (flatMap_escapeInText_eq_nil_iff.mp h)
    have htoken : ofToken? (.data (content.flatMap escapeInText)) = some (.text content) := by
      rw [ofToken?, resolve?_escapeInText, Option.map_some]
    rw [tokens_of_scan? (Token.scan?_data hne (notMem_escapeInText content) hrest),
      ofTokens?_cons htoken]
    simp only [if_neg hcontent]

/-- Events that are written one after the other are read back, texts in a row as one. The
induction is on the events; `content` is the text that has been written last. -/
theorem ofTokens?_tokens_flatMap_render {events : List Event} (h : ∀ event ∈ events, event.IsPlain)
    (content : Text) :
    ofTokens? (Token.tokens (content.flatMap escapeInText ++ events.flatMap render))
      = some (joinText content (joined events)) := by
  induction events generalizing content with
  | nil =>
    rw [List.flatMap_nil, ofTokens?_tokens_run (fun c hc => by cases hc), tokens_nil]
    rfl
  | cons event events ih =>
    rw [List.forall_mem_cons] at h
    by_cases htag : event.isText = false
    · -- A tag ends the text. What is read behind it starts without one.
      obtain ⟨token, htoken, hscan⟩ := exists_token h.1 htag
      have hnext := ih h.2 []
      rw [List.flatMap_nil, List.nil_append, joinText_nil] at hnext
      rw [List.flatMap_cons, ofTokens?_tokens_run (fun c => head?_render htag _),
        tokens_of_scan? (hscan _), ofTokens?_cons htoken, hnext, joined_cons_of_isText htag,
        joinText_cons_of_isText htag]
      rfl
    · -- A text goes on with the one before, so the reader meets both as one.
      obtain ⟨more, rfl⟩ := exists_text htag
      rw [List.flatMap_cons, show (text more).render = more.flatMap escapeInText from rfl,
        ← List.append_assoc, ← List.flatMap_append, ih h.2 (content ++ more), joined,
        joinText_joinText]

/-! ### Layout -/

/-- The events of a document with the line breaks and the indentation as texts. -/
def laidOut (depth : Nat) (breaksLine : Bool) : List Event → List Event
  | [] => []
  | event :: rest =>
    text (event.separator depth breaksLine) :: event ::
      laidOut (event.depthAfter depth) (!event.isText) rest

/-- A text of blanks with a line break in it. -/
def isLayout : Event → Bool
  | text content => content.all Text.isBlank && content.contains '\n'
  | _ => false

/-- Events without the texts that are layout. -/
def withoutLayout (events : List Event) : List Event :=
  events.filter fun event => !event.isLayout

/-- Nothing in the layout is escaped, since it is made of a line feed and tabs. So it can be taken
for a text that was written as it is. -/
theorem flatMap_escapeInText_separator (depth : Nat) (breaksLine : Bool) (event : Event) :
    (event.separator depth breaksLine).flatMap escapeInText = event.separator depth breaksLine := by
  have htabs : ∀ n, (List.replicate n '\t').flatMap escapeInText = List.replicate n '\t' := by
    intro n
    induction n with
    | zero => rfl
    | succ n ih =>
      rw [List.replicate_succ, List.flatMap_cons, ih]
      rfl
  unfold separator
  split
  · rw [List.flatMap_cons, htabs]
    rfl
  · rfl

/-- With its layout as texts, a document is what its events write one after the other. What is
proved of events in a row holds of documents through this. -/
theorem renderFrom_eq_flatMap (depth : Nat) (breaksLine : Bool) (events : List Event) :
    renderFrom depth breaksLine events = (laidOut depth breaksLine events).flatMap render := by
  induction events generalizing depth breaksLine with
  | nil => rfl
  | cons event events ih =>
    have hlayout : (text (event.separator depth breaksLine)).render
        = event.separator depth breaksLine := flatMap_escapeInText_separator _ _ _
    rw [renderFrom, laidOut, List.flatMap_cons, List.flatMap_cons, hlayout, ih, List.append_assoc]

/-- The layout adds texts only, and any text can be written. So what holds of the events holds of
the document with its layout. -/
theorem isPlain_laidOut {events : List Event} (h : ∀ event ∈ events, event.IsPlain) (depth : Nat)
    (breaksLine : Bool) : ∀ event ∈ laidOut depth breaksLine events, event.IsPlain := by
  induction events generalizing depth breaksLine with
  | nil => exact List.forall_mem_nil _
  | cons event events ih =>
    rw [List.forall_mem_cons] at h
    rw [laidOut, List.forall_mem_cons, List.forall_mem_cons]
    exact ⟨trivial, h.1, ih h.2 _ _⟩

/-- A document that starts with its declaration is read back, with its layout as texts. These join
the texts next to them, which is why the result is joined. -/
theorem readAll?_renderAll {events : List Event} (h : ∀ event ∈ events, event.IsPlain) :
    readAll? (renderAll (declaration :: events)) = some (joined (laidOut 0 true events)) := by
  have hsource : renderAll (declaration :: events)
      = declaration.render ++ renderFrom 0 true events := rfl
  have hscan := Token.scan?_declaration (renderFrom 0 true events)
  have hread := ofTokens?_tokens_flatMap_render (isPlain_laidOut h 0 true) []
  rw [List.flatMap_nil, List.nil_append, joinText_nil, ← renderFrom_eq_flatMap] at hread
  rw [readAll?, hsource, tokens_of_scan? hscan, ofTokens?, hread]

/-! ### Leaving the layout out -/

section Marks

-- What is read off events one by one, from a text character by character.
variable {α : Type} {f : Event → List α} {mark : Char → List α}
  (hf : ∀ content, f (text content) = content.flatMap mark)
include hf

/-- A text in front of events adds what is read off the text, whether it is joined with the
text that is there or not. -/
theorem flatMap_joinText (content : Text) (events : List Event) :
    (joinText content events).flatMap f = content.flatMap mark ++ events.flatMap f := by
  have hnew : ∀ events : List Event,
      (if content = [] then events else text content :: events).flatMap f
        = content.flatMap mark ++ events.flatMap f := by
    intro events
    split
    · rename_i hempty
      rw [hempty, List.flatMap_nil, List.nil_append]
    · rw [List.flatMap_cons, hf]
  cases events with
  | nil => exact hnew []
  | cons event events =>
    by_cases htag : event.isText = false
    · rw [joinText_cons_of_isText htag]
      exact hnew _
    · obtain ⟨more, rfl⟩ := exists_text htag
      rw [joinText, List.flatMap_cons, hf, List.flatMap_append, List.flatMap_cons, hf,
        List.append_assoc]

/-- What is read off events is the same whether texts are joined or not. The induction is on the
events, and every text goes to the front of those after it. -/
theorem flatMap_joined (events : List Event) : (joined events).flatMap f = events.flatMap f := by
  induction events with
  | nil => rfl
  | cons event events ih =>
    by_cases htag : event.isText = false
    · rw [joined_cons_of_isText htag, List.flatMap_cons, List.flatMap_cons, ih]
    · obtain ⟨content, rfl⟩ := exists_text htag
      rw [joined, flatMap_joinText hf, ih, List.flatMap_cons, hf]

/-- Whoever passes over line feeds and tabs does not see the layout, which is made of these. It is
no matter that the layout joins the texts next to it, as what is read off a text is read off its
characters. -/
theorem flatMap_joined_laidOut (hfeed : mark '\n' = []) (htab : mark '\t' = []) (depth : Nat)
    (breaksLine : Bool) (events : List Event) :
    (joined (laidOut depth breaksLine events)).flatMap f = events.flatMap f := by
  have hlayout : ∀ (event : Event) (depth : Nat) (breaksLine : Bool),
      f (text (event.separator depth breaksLine)) = [] := by
    intro event depth breaksLine
    rw [hf, separator]
    split
    · rw [List.flatMap_cons, hfeed, List.nil_append, List.flatMap_eq_nil_iff]
      exact fun c hc => (List.eq_of_mem_replicate hc).symm ▸ htab
    · rfl
  rw [flatMap_joined hf]
  induction events generalizing depth breaksLine with
  | nil => rfl
  | cons event events ih =>
    rw [laidOut, List.flatMap_cons, hlayout, List.nil_append, List.flatMap_cons,
      List.flatMap_cons, ih]

end Marks

/-- Whatever only looks at tags does not see the layout. It is the case of the theorem before in
which nothing is read off any character. -/
theorem filterMap_joined_laidOut {α : Type} {f : Event → Option α}
    (hf : ∀ content, f (text content) = none) (depth : Nat) (breaksLine : Bool)
    (events : List Event) :
    (joined (laidOut depth breaksLine events)).filterMap f = events.filterMap f := by
  have hmarks : ∀ content, (f (text content)).toList = content.flatMap fun _ => [] := by
    intro content
    rw [hf, Option.toList_none, List.flatMap_eq_nil_iff.mpr fun _ _ => rfl]
  rw [List.filterMap_eq_flatMap_toList, List.filterMap_eq_flatMap_toList]
  exact flatMap_joined_laidOut hmarks rfl rfl depth breaksLine events

/-- A text that is layout is left out. -/
theorem withoutLayout_cons_of_isLayout {event : Event} (h : event.isLayout = true)
    (events : List Event) : withoutLayout (event :: events) = withoutLayout events := by
  rw [withoutLayout, List.filter_cons, h]
  rfl

/-- Any other event stays. -/
theorem withoutLayout_cons {event : Event} (h : event.isLayout = false) (events : List Event) :
    withoutLayout (event :: events) = event :: withoutLayout events := by
  rw [withoutLayout, List.filter_cons, h]
  rfl

/-- No tag is layout. -/
theorem isLayout_of_isText {event : Event} (htag : event.isText = false) :
    event.isLayout = false := by
  cases event with
  | text content => cases htag
  | _ => rfl

/-- A text without line breaks is no layout. -/
theorem isLayout_text {content : Text} (h : '\n' ∉ content) : (text content).isLayout = false := by
  simp [isLayout, h]

/-- What stands before a tag that starts a line is layout. -/
theorem isLayout_separator {event : Event} (htag : event.isText = false) (depth : Nat) :
    (text (event.separator depth true)).isLayout = true := by
  have hbreak : Text.isBlank '\n' = true := by decide
  have htab : Text.isBlank '\t' = true := by decide
  simp [separator, htag, isLayout, hbreak, htab]

/-- A tag that starts a line has a line break before it. -/
theorem separator_ne_nil {event : Event} (htag : event.isText = false) (depth : Nat) :
    event.separator depth true ≠ [] := by
  simp [separator, htag]

/-- A text has nothing before it, neither at the start of a line nor behind another text. -/
theorem separator_text (content : Text) (depth : Nat) (breaksLine : Bool) :
    (text content).separator depth breaksLine = [] := by
  simp [separator, isText]

/-- A text without line breaks stays before a tag. Texts of blanks may be part of what someone
says, and so may not be left out unless a line break shows where they come from. -/
theorem withoutLayout_joinText_cons {event : Event} (htag : event.isText = false) {content : Text}
    (hcontent : '\n' ∉ content) (events : List Event) :
    withoutLayout (joinText content (event :: events))
      = joinText content (event :: withoutLayout events) := by
  rw [joinText_cons_of_isText htag, joinText_cons_of_isText htag]
  split
  · rw [withoutLayout_cons (isLayout_of_isText htag)]
  · rw [withoutLayout_cons (isLayout_text hcontent), withoutLayout_cons (isLayout_of_isText htag)]

/-- Without the layout, the events of a document are left as they were, texts in a row as
one, if no text has a line break. The induction is on the events: a tag after a tag starts a
line, but after text, which is `content` so far, no layout comes in. -/
theorem withoutLayout_joined_laidOut {events : List Event}
    (h : ∀ content, text content ∈ events → '\n' ∉ content) (depth : Nat) :
    withoutLayout (joined (laidOut depth true events)) = joined events ∧
      ∀ content : Text, '\n' ∉ content →
        withoutLayout (joinText content (joined (laidOut depth false events)))
          = joinText content (joined events) := by
  induction events generalizing depth with
  | nil =>
    refine ⟨rfl, fun content hcontent => ?_⟩
    simp only [laidOut, joined, joinText]
    split
    · rfl
    · exact withoutLayout_cons (isLayout_text hcontent) []
  | cons event events ih =>
    have hlater : ∀ content, text content ∈ events → '\n' ∉ content :=
      fun content hmem => h content (List.mem_cons_of_mem _ hmem)
    by_cases htag : event.isText = false
    · have hnext := (ih hlater (event.depthAfter depth)).1
      constructor
      · -- The text before the tag is layout, and what follows starts with the tag.
        rw [laidOut, htag, joined, joined_cons_of_isText htag, joinText_cons_of_isText htag,
          if_neg (separator_ne_nil htag depth),
          withoutLayout_cons_of_isLayout (isLayout_separator htag depth),
          withoutLayout_cons (isLayout_of_isText htag), Bool.not_false, hnext,
          joined_cons_of_isText htag]
      · intro content hcontent
        rw [laidOut, htag, joined, joined_cons_of_isText htag, joinText_joinText,
          show event.separator depth false = [] from rfl, List.append_nil,
          withoutLayout_joinText_cons htag hcontent, Bool.not_false, hnext,
          joined_cons_of_isText htag]
    · obtain ⟨more, rfl⟩ := exists_text htag
      have hmore := h more List.mem_cons_self
      have hnext := (ih hlater depth).2
      constructor
      · rw [laidOut, separator_text, joined, joined, joinText_nil, joined]
        exact hnext more hmore
      · intro content hcontent
        rw [laidOut, separator_text, joined, joined, joinText_nil, joinText_joinText, joined,
          joinText_joinText]
        refine hnext (content ++ more) fun hmem => ?_
        exact (List.mem_append.mp hmem).elim hcontent hmore

end Event

end TaskGrammar.Markup
