import TaskGrammar.Random.Source

/-!
# `TaskGrammar.Random.Script`: a source that repeats given words

A script hands out a list of words over and over. A 32-bit word is the low half of
the next 64-bit word. When no word of the list is accepted in one round, none ever
is, so the length of the list bounds every draw.
-/

set_option autoImplicit false

namespace TaskGrammar

/-- A list of words that is repeated, and the position of the next one in it. -/
structure Script where
  words : List UInt64
  position : Nat
  deriving DecidableEq, Repr

namespace Script

/-- The script that starts with the first of the words. -/
def ofWords (words : List UInt64) : Script :=
  { words := words, position := 0 }

/-- The word at the position, and the script one word on. -/
def next (script : Script) : UInt64 × Script :=
  (script.words.getD script.position 0,
    { script with position := (script.position + 1) % script.words.length })

instance : RandomSource Script where
  next32 script := (script.next.1.toUInt32, script.next.2)
  next64 := next
  patience script := script.words.length

end Script

end TaskGrammar
