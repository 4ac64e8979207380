import TaskGrammar.Fault

/-!
# `TaskGrammar.Random.Source`: draws from a source of random words

A `RandomSource` hands out words of 32 and of 64 bits. A draw below a bound scales
a word to the bound and rejects the words that would favour some results. A source
may go on offering words that are rejected, so a draw looks at no more words than
the source's `patience` allows and then fails with `Fault.endlessDraw`.

* `Draw σ`: computations with draws. The source goes on from where a computation
  left it, also when the computation failed.
* `drawBelow64`, `drawBelow32`: a number below a bound, from words of that width.
* `drawIndex`: a position in a list, from the narrowest word that can count it.
* `drawAny`: an element of a list, by one draw.
* `drawKept`: an element of a list, by one draw for each element. The k-th element
  replaces the one kept so far when its draw below k gives zero.
-/

set_option autoImplicit false

namespace TaskGrammar

/-- A state that hands out random words. -/
class RandomSource (σ : Type) where
  next32 : σ → UInt32 × σ
  next64 : σ → UInt64 × σ
  /-- How many words a single draw may look at. -/
  patience : σ → Nat

/-- Computations that draw from a source of state `σ` and may fail. -/
abbrev Draw (σ : Type) : Type → Type :=
  ExceptT Fault (StateM σ)

/-- The outcome of a computation, and the source after it. -/
def Draw.outcome {σ α : Type} (draw : Draw σ α) (source : σ) : Except Fault α × σ :=
  draw.run.run source

namespace Random

/-- The largest low half of a product for which a word below `size`, a power of two, is
accepted: the bound, doubled as long as it stays below the size, less one. -/
def zone (size bound : Nat) : Nat :=
  bound * (size >>> (Nat.log2 bound + 1)) - 1

/-- Whether a word may be scaled to a number below the bound. -/
def accepts (size bound word : Nat) : Bool :=
  decide (word * bound % size ≤ zone size bound)

/-- The number below the bound that a word is scaled to. -/
def scale (size bound : Nat) (h : 0 < bound) (word : Fin size) : Fin bound :=
  ⟨word.val * bound / size,
    Nat.div_lt_of_lt_mul (Nat.mul_lt_mul_of_pos_right word.isLt h)⟩

/-- The first accepted word of a source, scaled; at most `words` are looked at. -/
def scaleFirst {σ : Type} (size bound : Nat) (h : 0 < bound) (next : σ → Fin size × σ) :
    Nat → σ → Option (Fin bound) × σ
  | 0, source => (none, source)
  | words + 1, source =>
    let drawn := next source
    if accepts size bound drawn.1 then (some (scale size bound h drawn.1), drawn.2)
    else scaleFirst size bound h next words drawn.2

/-- A draw from the words below a size. -/
def drawScaled {σ : Type} [RandomSource σ] (size bound : Nat) (h : 0 < bound)
    (next : σ → Fin size × σ) : Draw σ (Fin bound) :=
  ExceptT.mk fun source =>
    match scaleFirst size bound h next (RandomSource.patience source) source with
    | (some result, source') => (.ok result, source')
    | (none, source') => (.error .endlessDraw, source')

variable {σ : Type} [RandomSource σ]

/-- A number below the bound, from words of 64 bits. -/
def drawBelow64 (bound : Nat) (h : 0 < bound) : Draw σ (Fin bound) :=
  drawScaled UInt64.size bound h fun source =>
    ((RandomSource.next64 source).1.toFin, (RandomSource.next64 source).2)

/-- A number below the bound, from words of 32 bits. -/
def drawBelow32 (bound : Nat) (h : 0 < bound) : Draw σ (Fin bound) :=
  drawScaled UInt32.size bound h fun source =>
    ((RandomSource.next32 source).1.toFin, (RandomSource.next32 source).2)

/-- A position in a list of the given length. Words of 32 bits serve all lengths
below `2 ^ 32`. -/
def drawIndex (length : Nat) (h : 0 < length) : Draw σ (Fin length) :=
  if length < UInt32.size then drawBelow32 length h else drawBelow64 length h

/-- An element of a list, by one draw; none of the empty list, without a draw. -/
def drawAny {α : Type} : List α → Draw σ (Option α)
  | [] => pure none
  | item :: rest => do
    let position ← drawIndex (item :: rest).length (Nat.succ_pos _)
    pure (some ((item :: rest).get position))

/-- Goes on through a list of which `seen` elements are past and `kept` is kept. -/
def drawKeptFrom {α : Type} (seen : Nat) (kept : Option α) : List α → Draw σ (Option α)
  | [] => pure kept
  | item :: rest => do
    let position ← drawIndex (seen + 1) (Nat.succ_pos _)
    drawKeptFrom (seen + 1) (if position.val = 0 then some item else kept) rest

/-- An element of a list, by one draw for each element; none of the empty list. -/
def drawKept {α : Type} (items : List α) : Draw σ (Option α) :=
  drawKeptFrom 0 none items

end Random

end TaskGrammar
