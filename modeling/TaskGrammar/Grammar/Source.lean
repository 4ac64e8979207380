import TaskGrammar.Grammar.Basic

/-!
# `TaskGrammar.Grammar.Source`: grammar files

A grammar file is read line by line. Blanks around a line do not matter. A line is
empty, a comment that starts with `;` or `#`, a header, or a rule:

    ; grammar name Fetching
    ; grammar tier Easy
    $Main = $go | $fetch
    $go   = Go to the {room}.

`Line.ofText` says which. The right-hand side of a rule holds alternatives between
bars; a bar inside braces belongs to the alternative around it. Further lines of an
id add to its alternatives, and the last header of a kind counts.
-/

set_option autoImplicit false

namespace TaskGrammar

/-- Cuts a text at the bars outside of braces, with `depth` braces open. A closing
brace without an opening one counts for nothing. Never the empty list. -/
def cutAtBars (depth : Nat) : Text → List Text
  | [] => [[]]
  | c :: rest =>
    if c = '|' ∧ depth = 0 then
      [] :: cutAtBars 0 rest
    else
      let inner := if c = '{' then depth + 1 else if c = '}' then depth - 1 else depth
      match cutAtBars inner rest with
      | [] => [[c]]
      | part :: parts => (c :: part) :: parts

/-- The alternatives of a right-hand side; a blank one has none. -/
def alternatives (source : Text) : List Text :=
  if Text.trim source = [] then []
  else (cutAtBars 0 (Text.trim source)).map Text.trim

/-- What one line of a grammar file says. -/
inductive Line
  /-- An empty line or a comment. -/
  | nothing
  | name (value : Text)
  | tier (value : Text)
  | rule (id : Text) (source : Text)
  | malformed
  deriving DecidableEq, Repr

namespace Line

/-- What follows a word and the blanks after it, of which there must be some. -/
def afterWord? (word t : Text) : Option Text :=
  if word.isPrefixOf t && ((t.drop word.length).head?.map Text.isBlank).getD false then
    some ((t.drop word.length).dropWhile Text.isBlank)
  else none

/-- What a comment says, `t` being the trimmed text after its semicolon. Only a word
for a header, blanks and a value make it more than a comment. -/
def ofComment (t : Text) : Line :=
  match afterWord? "grammar".toList (t.dropWhile Text.isBlank) with
  | none => nothing
  | some header =>
    match afterWord? "name".toList header with
    | some value => if value = [] then nothing else name value
    | none =>
      match afterWord? "tier".toList header with
      | some value => if value = [] then nothing else tier value
      | none => nothing

/-- What a rule line says, `t` being the text after its sigil. -/
def ofRule (t : Text) : Line :=
  match t.takeWhile Text.isIdentifier, (t.dropWhile Text.isIdentifier).dropWhile Text.isBlank with
  | [], _ => malformed
  | id, '=' :: source => rule (Segment.sigil :: id) source
  | _, _ => malformed

/-- What a line says, its blanks at both ends dropped. -/
def ofTrimmed : Text → Line
  | [] => nothing
  | c :: rest =>
    if c = ';' then ofComment rest
    else if c = '#' then nothing
    else if c = Segment.sigil then ofRule rest
    else malformed

/-- What a line says. -/
def ofText (t : Text) : Line :=
  ofTrimmed (Text.trim t)

end Line

namespace Grammar

/-- What a line, of the given number, makes of a grammar. -/
def applyLine (number : Nat) (line : Line) (grammar : Grammar) : Except Fault Grammar :=
  match line with
  | .nothing => .ok grammar
  | .name value => .ok { grammar with name := value }
  | .tier value =>
    match Tier.ofName? value with
    | some tier => .ok { grammar with tier := tier }
    | none => .error (.unknownTier (Text.normalize value))
  | .rule id source => .ok (grammar.addRule id (alternatives source))
  | .malformed => .error (.malformedLine number)

/-- Applies the lines from a number on, up to the first fault. -/
def applyLines (number : Nat) (lines : List Text) (grammar : Grammar) : Except Fault Grammar :=
  match lines with
  | [] => .ok grammar
  | line :: rest =>
    match applyLine number (.ofText line) grammar with
    | .error fault => .error fault
    | .ok grammar' => applyLines (number + 1) rest grammar'

/-- The grammar that a file holds. Without a header its name is `defaultName` and its
tier unknown. -/
def parse (defaultName source : Text) : Except Fault Grammar :=
  match applyLines 1 (Text.lines source) (empty defaultName .unknown) with
  | .error fault => .error fault
  | .ok grammar => grammar.requireRoot

end Grammar

end TaskGrammar
