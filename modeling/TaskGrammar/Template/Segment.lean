import TaskGrammar.Template.Wildcard

/-!
# `TaskGrammar.Template.Segment`: the pieces of a template

A template is a run of segments: a reference `$name` to a rule, a wildcard
`{key parameters}`, or literal text, which reaches to the next `$` or `{`. The
scanner never fails. A lone `$` is a reference to a rule without a name, and a
wildcard that is never closed takes the rest of the template.

* `scan?` reads one segment: the characters that it takes and what follows them.
* `source_append_rest`: reading loses no character.
* `locate` reads all segments, each with its byte position; `segments` drops the
  positions.
* `segmentAt?` reads the segment at a byte position, with a cursor that moves over the
  bytes of the template.
-/

set_option autoImplicit false

namespace TaskGrammar

/-- One piece of a template. -/
inductive Segment
  | literal (text : Text)
  /-- A reference, with the sigil that starts it. -/
  | reference (id : Text)
  | wildcard (wildcard : Wildcard)
  deriving DecidableEq, Repr

namespace Segment

/-- The character that starts a reference. -/
def sigil : Char :=
  '$'

/-- Whether a character is literal text wherever it stands outside a wildcard. -/
def isPlain (c : Char) : Bool :=
  c != sigil && c != '{'

/-- A segment at the start of a text: the characters that it takes, what they say, and
what follows them. -/
structure Scanned where
  source : Text
  segment : Segment
  rest : Text

/-- The parameters of a wildcard as they are read. -/
structure ScannedParams where
  params : Text
  /-- Whether the brace that closes the wildcard is there. -/
  terminated : Bool
  /-- What follows that brace. -/
  rest : Text

/-- Reads to the brace that closes a wildcard, with `depth` further braces open. -/
def scanParams (depth : Nat) : Text → ScannedParams
  | [] => { params := [], terminated := false, rest := [] }
  | c :: rest =>
    if c = '}' ∧ depth = 0 then
      { params := [], terminated := true, rest := rest }
    else
      -- Every brace counts, wherever it stands in the parameters.
      let inner := if c = '{' then depth + 1 else if c = '}' then depth - 1 else depth
      let found := scanParams inner rest
      { found with params := c :: found.params }

/-- The brace that ends a wildcard, where it is there. -/
def closing (terminated : Bool) : Text :=
  if terminated then ['}'] else []

/-- Reads a wildcard whose opening brace has been read. -/
def scanWildcard (t : Text) : Scanned :=
  let body := t.dropWhile Text.isBlank
  let key := body.takeWhile Text.isLetter
  let found := scanParams 0 (body.dropWhile Text.isLetter)
  { source := '{' :: t.takeWhile Text.isBlank ++ key ++ found.params ++ closing found.terminated
    segment := .wildcard { key := key, params := found.params, terminated := found.terminated }
    rest := found.rest }

/-- Reads the segment at the start of a text. -/
def scan? : Text → Option Scanned
  | [] => none
  | c :: t =>
    if c = sigil then
      some {
        source := c :: t.takeWhile Text.isIdentifier
        segment := .reference (c :: t.takeWhile Text.isIdentifier)
        rest := t.dropWhile Text.isIdentifier }
    else if c = '{' then
      some (scanWildcard t)
    else
      some {
        source := c :: t.takeWhile isPlain
        segment := .literal (c :: t.takeWhile isPlain)
        rest := t.dropWhile isPlain }

/-- Parameters, their closing brace, and what follows make up the text. -/
theorem scanParams_append (depth : Nat) (t : Text) :
    (scanParams depth t).params ++ closing (scanParams depth t).terminated
      ++ (scanParams depth t).rest = t := by
  induction t generalizing depth with
  | nil => simp [scanParams, closing]
  | cons c t ih =>
    rw [scanParams]
    split
    · rename_i h
      simp [closing, h.1]
    · exact congrArg (c :: ·) (ih _)

/-- A wildcard and what follows it make up the text. -/
theorem scanWildcard_append (t : Text) :
    (scanWildcard t).source ++ (scanWildcard t).rest = '{' :: t := by
  have hblanks := List.takeWhile_append_dropWhile (p := Text.isBlank) (l := t)
  have hkey := List.takeWhile_append_dropWhile (p := Text.isLetter) (l := t.dropWhile Text.isBlank)
  have hparams := scanParams_append 0 ((t.dropWhile Text.isBlank).dropWhile Text.isLetter)
  simp only [List.append_assoc] at hparams
  simp [scanWildcard, List.append_assoc, hparams, hkey, hblanks]

/-- A segment and what follows it make up the text. Nothing is lost between two segments, so a
template is told by them and their spellings. -/
theorem source_append_rest {t : Text} {scanned : Scanned} (h : scan? t = some scanned) :
    scanned.source ++ scanned.rest = t := by
  cases t with
  | nil => simp [scan?] at h
  | cons c t =>
    rw [scan?] at h
    split at h
    · cases h
      simp [List.takeWhile_append_dropWhile]
    · split at h
      · rename_i hc
        cases h
        rw [scanWildcard_append, hc]
      · cases h
        simp [List.takeWhile_append_dropWhile]

/-- Each segment takes at least one character. -/
theorem source_ne_nil {t : Text} {scanned : Scanned} (h : scan? t = some scanned) :
    scanned.source ≠ [] := by
  cases t with
  | nil => simp [scan?] at h
  | cons c t =>
    rw [scan?] at h
    split at h
    · cases h
      simp
    · split at h <;> cases h <;> simp [scanWildcard]

/-- Less is left after a segment than before it. By this a template is scanned to its end. -/
theorem length_rest_lt {t : Text} {scanned : Scanned} (h : scan? t = some scanned) :
    scanned.rest.length < t.length := by
  have hsource := List.length_pos_iff.mpr (source_ne_nil h)
  rw [← source_append_rest h, List.length_append]
  exact Nat.lt_add_of_pos_left hsource

/-- The segments of a text, each with its byte position, the text itself being at
`offset`. -/
def locate (offset : Nat) (t : Text) : List (Nat × Segment) :=
  match _h : scan? t with
  | none => []
  | some scanned =>
    (offset, scanned.segment) ::
      locate (offset + Text.utf8Length scanned.source) scanned.rest
termination_by t.length
decreasing_by exact length_rest_lt _h

/-- The segments of a template. -/
def segments (template : Text) : List Segment :=
  (locate 0 template).map Prod.snd

/-- The ids that a template refers to, in order. -/
def references (template : Text) : List Text :=
  (segments template).filterMap fun segment =>
    match segment with
    | .reference id => some id
    | _ => none

/-! ### Cursors

Whoever reports where a segment is counts in bytes. A cursor moves by whole characters
where characters are compared, and byte by byte through the parameters of a wildcard. Each
text that is cut out is a checked slice, and each brace that is closed must be open. -/

/-- Moves a cursor over bytes, `depth` braces being open, until none is open or the bytes
end; `none` if a brace is closed that is not open. -/
def scanBraces? (cursor depth : Nat) : Bytes → Option (Nat × Nat)
  | [] => some (cursor, depth)
  | byte :: rest =>
    let inner? :=
      if byte = '{'.toUInt8 then some (depth + 1)
      else if byte = '}'.toUInt8 then (if depth = 0 then none else some (depth - 1))
      else some depth
    match inner? with
    | none => none
    | some 0 => some (cursor + 1, 0)
    | some inner => scanBraces? (cursor + 1) inner rest

/-- The wildcard whose opening brace is at the cursor, and the position after it. -/
def wildcardAt? (template : Text) (cursor : Nat) : Option (Wildcard × Nat) := do
  let keyStart ← Text.skipBlanks? template (cursor + 1)
  let paramsStart ← Text.skipWhile? Text.isLetter template keyStart
  let key ← Text.slice? template keyStart paramsStart
  let (next, depth) ← scanBraces? paramsStart 1 ((Text.encode template).drop paramsStart)
  let terminated := depth == 0
  let params ← Text.slice? template paramsStart (if terminated then next - 1 else next)
  pure ({ key := key, params := params, terminated := terminated }, next)

/-- The segment that starts at a byte position, and the position after it. At the
end of the template it is an empty literal; `none` where no character starts. -/
def segmentAt? (template : Text) (cursor : Nat) : Option (Segment × Nat) := do
  let rest ← Text.slice? template cursor (Text.utf8Length template)
  if rest.head? = some sigil then
    let next ← Text.skipWhile? Text.isIdentifier template (cursor + sigil.utf8Size)
    let id ← Text.slice? template cursor next
    pure (.reference id, next)
  else if rest.head? = some '{' then
    let (found, next) ← wildcardAt? template cursor
    pure (.wildcard found, next)
  else
    let next ← Text.skipWhile? isPlain template cursor
    let text ← Text.slice? template cursor next
    pure (.literal text, next)

end Segment

end TaskGrammar
