import TaskGrammar.Markup.Reference

/-!
# `TaskGrammar.Markup.Token`: the tokens of a document

A document is a run of tags, character data, and asides (comments, instructions and
declarations) that carry no data. `Token.scan?` reads one token and gives what
follows it, `Token.tokens` reads as many as there are. Where a token is malformed or
cut off the list ends with `Token.malformed`; a reader that has seen enough by then
never gets there.

Tags keep their attributes as they are written, and character data its references:
they are examined only where someone asks for them.
-/

set_option autoImplicit false

namespace TaskGrammar.Markup

/-- A token of a document. -/
inductive Token
  /-- A start tag, or an empty-element tag. -/
  | openTag (name attributes : Text) (isEmpty : Bool)
  | closeTag (name : Text)
  /-- Character data, its references as written. -/
  | data (raw : Text)
  /-- A section whose text stands for itself. -/
  | verbatim (text : Text)
  /-- A document type declaration. -/
  | doctype
  /-- A comment, an instruction, or a declaration. -/
  | aside
  | malformed
  deriving DecidableEq, Repr

namespace Token

/-- The texts before and after the first occurrence of a mark. -/
def splitAt? (mark : Text) (t : Text) : Option (Text × Text) :=
  if mark.isPrefixOf t then
    some ([], t.drop mark.length)
  else
    match t with
    | [] => none
    | c :: rest => (splitAt? mark rest).map fun found => (c :: found.1, found.2)

/-- Reads a start tag or an end tag up to its end, which no quoted text contains, be it
in a name. `quote` is the mark that ends the quoted text at hand. -/
def scanTag? (quote : Option Char) : Text → Option (Text × Text)
  | [] => none
  | c :: rest =>
    match quote with
    | some mark =>
      (scanTag? (if c = mark then none else quote) rest).map fun found => (c :: found.1, found.2)
    | none =>
      if c = '>' then some ([], rest)
      else
        (scanTag? (if c = '"' ∨ c = '\'' then some c else none) rest).map fun found =>
          (c :: found.1, found.2)

/-- Reads a declaration to the bracket that closes it, with `depth` brackets open. -/
def scanNested? (depth : Nat) : Text → Option (Text × Text)
  | [] => none
  | c :: rest =>
    if c = '>' ∧ depth = 0 then some ([], rest)
    else
      let inner := if c = '<' then depth + 1 else if c = '>' then depth - 1 else depth
      (scanNested? inner rest).map fun found => (c :: found.1, found.2)

/-- The start tag with the given content: a name up to the first blank, attributes,
and a slash if the element is empty. -/
def ofTag (content : Text) : Token :=
  let isEmpty := content.getLast? = some '/'
  let body := if isEmpty then content.dropLast else content
  openTag (body.takeWhile fun c => !isBlank c) (body.dropWhile fun c => !isBlank c) isEmpty

/-- Whether a text starts with a word in any case, and what follows the word. -/
def afterCaseless? (word t : Text) : Option Text :=
  if Text.lowerAscii (t.take word.length) = Text.lowerAscii word then some (t.drop word.length)
  else none

/-- Reads what starts with `<!`, the two characters being past. Of the words that may
follow, only `DOCTYPE` stands in any case. -/
def scanDeclaration? (t : Text) : Option (Token × Text) :=
  if "--".toList.isPrefixOf t then
    (splitAt? "-->".toList (t.drop 2)).map fun found => (aside, found.2)
  else
    if "[CDATA[".toList.isPrefixOf t then
      (splitAt? "]]>".toList (t.drop 7)).map fun found => (verbatim found.1, found.2)
    else
      match afterCaseless? "DOCTYPE".toList t with
      | none => none
      | some rest =>
        match scanNested? 0 rest with
        | none => none
        | some (content, rest') => if content.all isBlank then none else some (doctype, rest')

/-- The end tag with the given content, a name. Blanks after the name do not belong to
it, but blanks alone are a name. -/
def ofEndTag (content : Text) : Token :=
  match Text.dropEndWhile isBlank content with
  | [] => closeTag content
  | name => closeTag name

/-- Reads what starts with `<`, the character being past. -/
def scanMarkup? (t : Text) : Option (Token × Text) :=
  match t with
  | [] => none
  | '!' :: rest => scanDeclaration? rest
  | '?' :: rest =>
    if rest.head? = some '>' then none
    else (splitAt? "?>".toList rest).map fun found => (aside, found.2)
  | '/' :: rest => (scanTag? none rest).map fun found => (ofEndTag found.1, found.2)
  | t => (scanTag? none t).map fun found => (ofTag found.1, found.2)

/-- Reads the token at the start of a text, and gives what follows it. -/
def scan? : Text → Option (Token × Text)
  | [] => none
  | c :: rest =>
    if c = '<' then scanMarkup? rest
    else some (data (c :: rest.takeWhile fun d => d != '<'), rest.dropWhile fun d => d != '<')

/-- What follows a mark is no longer than the text that it was looked for in. This and the next
lemmas say so for each way of reading a part of a token; together they give `length_lt_of_scan?`,
by which reading all tokens of a text ends. -/
theorem length_le_of_splitAt? {mark t : Text} {found : Text × Text}
    (h : splitAt? mark t = some found) : found.2.length ≤ t.length := by
  induction t generalizing found with
  | nil =>
    rw [splitAt?] at h
    split at h <;> simp at h
    simp [← h]
  | cons c t ih =>
    rw [splitAt?] at h
    split at h
    · simp only [Option.some.injEq] at h
      rw [← h]
      simp
    · obtain ⟨inner, hinner, rfl⟩ := Option.map_eq_some_iff.mp h
      exact Nat.le_succ_of_le (show inner.2.length ≤ t.length from ih hinner)

/-- Nor is what follows a tag, whatever quotation mark is open where it is read. The quotation
mark changes from character to character, so the induction is for all of them. -/
theorem length_le_of_scanTag? {quote : Option Char} {t : Text} {found : Text × Text}
    (h : scanTag? quote t = some found) : found.2.length ≤ t.length := by
  induction t generalizing quote found with
  | nil => simp [scanTag?] at h
  | cons c t ih =>
    cases quote with
    | some mark =>
      obtain ⟨inner, hinner, rfl⟩ := Option.map_eq_some_iff.mp h
      exact Nat.le_succ_of_le (show inner.2.length ≤ t.length from ih hinner)
    | none =>
      simp only [scanTag?] at h
      split at h
      · simp only [Option.some.injEq] at h
        rw [← h]
        simp
      · obtain ⟨inner, hinner, rfl⟩ := Option.map_eq_some_iff.mp h
        exact Nat.le_succ_of_le (show inner.2.length ≤ t.length from ih hinner)

/-- Nor is what follows a declaration with brackets in it, however many are open. -/
theorem length_le_of_scanNested? {depth : Nat} {t : Text} {found : Text × Text}
    (h : scanNested? depth t = some found) : found.2.length ≤ t.length := by
  induction t generalizing depth found with
  | nil => simp [scanNested?] at h
  | cons c t ih =>
    simp only [scanNested?] at h
    split at h
    · simp only [Option.some.injEq] at h
      rw [← h]
      simp
    · obtain ⟨inner, hinner, rfl⟩ := Option.map_eq_some_iff.mp h
      exact Nat.le_succ_of_le (show inner.2.length ≤ t.length from ih hinner)

/-- Nor is what follows a word. Where the text is shorter than the word, nothing is left. -/
theorem length_le_of_afterCaseless? {word t rest : Text} (h : afterCaseless? word t = some rest) :
    rest.length ≤ t.length := by
  rw [afterCaseless?] at h
  split at h
  · simp only [Option.some.injEq] at h
    rw [← h]
    simp
  · simp at h

/-- A remark, a verbatim text and a document type each leave no more than there was. -/
theorem length_le_of_scanDeclaration? {t rest : Text} {token : Token}
    (h : scanDeclaration? t = some (token, rest)) : rest.length ≤ t.length := by
  rw [scanDeclaration?] at h
  split at h
  · obtain ⟨found, hfound, heq⟩ := Option.map_eq_some_iff.mp h
    simp only [Prod.mk.injEq] at heq
    rw [← heq.2]
    exact Nat.le_trans (length_le_of_splitAt? hfound) (by simp)
  · split at h
    · obtain ⟨found, hfound, heq⟩ := Option.map_eq_some_iff.mp h
      simp only [Prod.mk.injEq] at heq
      rw [← heq.2]
      exact Nat.le_trans (length_le_of_splitAt? hfound) (by simp)
    · split at h
      · simp at h
      · rename_i hrest
        split at h
        · simp at h
        · rename_i hnested
          split at h
          · simp at h
          · simp only [Option.some.injEq, Prod.mk.injEq] at h
            rw [← h.2]
            exact Nat.le_trans (length_le_of_scanNested? hnested)
              (length_le_of_afterCaseless? hrest)

/-- So does each kind of markup. The character that it starts with is already past, and that makes
each token take at least one. -/
theorem length_le_of_scanMarkup? {t rest : Text} {token : Token}
    (h : scanMarkup? t = some (token, rest)) : rest.length ≤ t.length := by
  rw [scanMarkup?.eq_def] at h
  split at h
  · simp at h
  · exact Nat.le_succ_of_le (length_le_of_scanDeclaration? h)
  · split at h
    · simp at h
    · obtain ⟨found, hfound, heq⟩ := Option.map_eq_some_iff.mp h
      simp only [Prod.mk.injEq] at heq
      rw [← heq.2]
      exact Nat.le_succ_of_le (length_le_of_splitAt? hfound)
  · obtain ⟨found, hfound, heq⟩ := Option.map_eq_some_iff.mp h
    simp only [Prod.mk.injEq] at heq
    rw [← heq.2]
    exact Nat.le_succ_of_le (length_le_of_scanTag? hfound)
  · obtain ⟨found, hfound, heq⟩ := Option.map_eq_some_iff.mp h
    simp only [Prod.mk.injEq] at heq
    rw [← heq.2]
    exact length_le_of_scanTag? hfound

/-- Each token takes at least one character. So the reading of a text ends, whatever is in it. -/
theorem length_lt_of_scan? {t rest : Text} {token : Token}
    (h : scan? t = some (token, rest)) : rest.length < t.length := by
  cases t with
  | nil => simp [scan?] at h
  | cons c t =>
    rw [scan?] at h
    split at h
    · exact Nat.lt_succ_of_le (length_le_of_scanMarkup? h)
    · simp only [Option.some.injEq, Prod.mk.injEq] at h
      rw [← h.2]
      exact Nat.lt_succ_of_le (List.dropWhile_suffix _).length_le

/-- The tokens of a text, with `malformed` where one cannot be read. -/
def tokens (t : Text) : List Token :=
  if t = [] then []
  else
    match _h : scan? t with
    | none => [malformed]
    | some (token, rest) => token :: tokens rest
termination_by t.length
decreasing_by exact length_lt_of_scan? _h

end Token

end TaskGrammar.Markup
