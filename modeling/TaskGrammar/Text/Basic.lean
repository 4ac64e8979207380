/-!
# `TaskGrammar.Text.Basic`: text as a list of characters

Everything the library reads or says is a `Text`, the list of its characters.
Positions are counted in UTF-8 bytes, the unit of every offset that the library
reports. The operations:

* `isBlank`, `trim`: the Unicode property White_Space, and removing it from both
  ends.
* `cutLines`: the lines of a list of symbols. It serves characters (grammar
  files) and bytes (requests) alike.
* `after?`: what follows the first occurrence of a marker.
* `dropBytes?` / `slice?`: the text from a byte position on, and between two of them,
  where characters start there.
* `encode` / `decode?`: UTF-8 in both directions. `decode?_eq_some_iff` says that they
  are each other's inverses.
-/

set_option autoImplicit false

namespace TaskGrammar

/-- A text is the list of its characters. -/
abbrev Text := List Char

/-- The content of a file or a stream, before any decoding. -/
abbrev Bytes := List UInt8

namespace Text

/-- Two texts pass the test for equality exactly if they are the same. -/
instance : LawfulBEq Text :=
  inferInstance

/-- A text is hashed by the codes of its characters. -/
instance : Hashable Text :=
  ⟨fun t => hash (t.map Char.toNat)⟩

/-- The characters of the Unicode property White_Space. -/
def isBlank (c : Char) : Bool :=
  let n := c.toNat
  (0x09 ≤ n && n ≤ 0x0D) || n == 0x20 || n == 0x85 || n == 0xA0 || n == 0x1680 ||
    (0x2000 ≤ n && n ≤ 0x200A) || n == 0x2028 || n == 0x2029 || n == 0x202F ||
    n == 0x205F || n == 0x3000

/-- Drops the longest end of `t` whose characters all satisfy `p`. -/
def dropEndWhile (p : Char → Bool) (t : Text) : Text :=
  (t.reverse.dropWhile p).reverse

/-- Drops the characters that satisfy `p` from both ends. -/
def trimWhile (p : Char → Bool) (t : Text) : Text :=
  dropEndWhile p (t.dropWhile p)

/-- Drops the blanks at both ends. -/
def trim (t : Text) : Text :=
  trimWhile isBlank t

/-- Lowers the letters A to Z and leaves every other character alone. -/
def lowerAscii (t : Text) : Text :=
  t.map Char.toLower

/-- The form in which the words of a file are compared: trimmed, in lower case. -/
def normalize (word : Text) : Text :=
  lowerAscii (trim word)

/-- The letters A to Z and a to z. -/
def isLetter (c : Char) : Bool :=
  c.isAlpha

/-- The characters of an identifier: ASCII letters, digits and the underscore. -/
def isIdentifier (c : Char) : Bool :=
  c.isAlphanum || c == '_'

/-- Cuts a list of symbols into lines. A line ends at `feed` or at the end of the
list; one `carriage` directly before a feed belongs to the line's end. A feed at
the very end starts no further line. -/
def cutLines {α : Type} [DecidableEq α] (carriage feed : α) : List α → List (List α)
  | [] => []
  | a :: rest =>
    if a = feed then
      [] :: cutLines carriage feed rest
    else if a = carriage ∧ rest.head? = some feed then
      cutLines carriage feed rest
    else
      match cutLines carriage feed rest with
      -- The last symbol of the last line, which has no feed.
      | [] => [[a]]
      | line :: lines => (a :: line) :: lines

/-- The lines of a text. -/
def lines (t : Text) : List Text :=
  cutLines '\r' '\n' t

/-- What follows the first occurrence of `marker` in a text. -/
def after? (marker : Text) (t : Text) : Option Text :=
  if marker.isPrefixOf t then
    some (t.drop marker.length)
  else
    match t with
    | [] => none
    | _ :: rest => after? marker rest

/-- The texts between the occurrences of a separator; never the empty list. -/
def splitOn (separator : Char) : Text → List Text
  | [] => [[]]
  | c :: rest =>
    if c = separator then
      [] :: splitOn separator rest
    else
      match splitOn separator rest with
      | [] => [[c]]
      | part :: parts => (c :: part) :: parts

/-- The number of bytes of a text in UTF-8. -/
def utf8Length : Text → Nat
  | [] => 0
  | c :: rest => c.utf8Size + utf8Length rest

/-- The text from the byte position `n` on; `none` inside a character and past
the end. -/
def dropBytes? : Text → Nat → Option Text
  | t, 0 => some t
  | [], _ + 1 => none
  | c :: rest, n + 1 =>
    if c.utf8Size ≤ n + 1 then dropBytes? rest (n + 1 - c.utf8Size) else none

/-- The first `n` bytes of a text; `none` if they end inside a character or past the
end. -/
def takeBytes? : Text → Nat → Option Text
  | _, 0 => some []
  | [], _ + 1 => none
  | c :: rest, n + 1 =>
    if c.utf8Size ≤ n + 1 then (takeBytes? rest (n + 1 - c.utf8Size)).map (c :: ·) else none

/-- The text between two byte positions; `none` if they are out of order, or if one of
them is inside a character or past the end. -/
def slice? (t : Text) (start stop : Nat) : Option Text :=
  if start ≤ stop then
    (dropBytes? t start).bind fun rest => takeBytes? rest (stop - start)
  else none

/-- The byte position after the characters that satisfy `p` from `cursor` on; `none`
inside a character and past the end. -/
def skipWhile? (p : Char → Bool) (t : Text) (cursor : Nat) : Option Nat :=
  (slice? t cursor (utf8Length t)).map fun rest => cursor + utf8Length (rest.takeWhile p)

/-- The byte position after the blanks that start at `cursor`. A cursor at or past
the end gives the end; `none` inside a character. -/
def skipBlanks? (t : Text) (cursor : Nat) : Option Nat :=
  if utf8Length t ≤ cursor then
    some (utf8Length t)
  else
    (dropBytes? t cursor).map fun rest => cursor + utf8Length (rest.takeWhile isBlank)

/-- The UTF-8 bytes of a text. -/
def encode (t : Text) : Bytes :=
  t.flatMap String.utf8EncodeChar

/-- The text that the bytes spell in UTF-8, if they spell one. -/
def decode? (bytes : Bytes) : Option Text :=
  (String.fromUTF8? bytes.toByteArray).map String.toList

/-- What has been encoded can be decoded. -/
theorem decode?_encode (t : Text) : decode? (encode t) = some t := by
  have hbytes : (encode t).toByteArray = (String.ofList t).toByteArray :=
    String.toByteArray_ofList.symm
  rw [decode?, hbytes, String.fromUTF8?, dif_pos (String.ofList t).isValidUTF8]
  exact congrArg some String.toList_ofList

/-- Bytes spell a text exactly if they are its encoding. There is one form for each character, so
other bytes do not spell it as well. -/
theorem decode?_eq_some_iff {bytes : Bytes} {t : Text} :
    decode? bytes = some t ↔ bytes = encode t := by
  constructor
  · intro h
    rw [decode?, String.fromUTF8?] at h
    split at h
    · simp only [Option.map_some, Option.some.injEq] at h
      have hbytes : (encode t).toByteArray = bytes.toByteArray := by
        rw [show (encode t).toByteArray = (String.ofList t).toByteArray from
          String.toByteArray_ofList.symm, ← h]
        simp [String.fromUTF8]
      simpa using (congrArg ByteArray.data hbytes).symm
    · simp at h
  · rintro rfl
    exact decode?_encode t

/-- The decimal digits of a number. -/
def ofNat (n : Nat) : Text :=
  Nat.toDigits 10 n

/-- The number that decimal digits spell, of which there must be some. -/
def toNat? (digits : Text) : Option Nat :=
  if digits ≠ [] ∧ digits.all Char.isDigit then
    some (digits.foldl (fun n c => n * 10 + (c.toNat - '0'.toNat)) 0)
  else none

/-- The number below `2 ^ 64` that decimal digits spell. -/
def toWord? (digits : Text) : Option UInt64 :=
  match toNat? digits with
  | some n => if n < UInt64.size then some (UInt64.ofNat n) else none
  | none => none

/-- The texts joined by a separator. -/
def join (separator : Text) (parts : List Text) : Text :=
  (parts.intersperse separator).flatten

/-- Orders texts by their UTF-8 bytes, which is the order of their code points. -/
def le : Text → Text → Bool
  | [], _ => true
  | _ :: _, [] => false
  | a :: s, b :: t => if a = b then le s t else decide (a.toNat < b.toNat)

end Text

end TaskGrammar
