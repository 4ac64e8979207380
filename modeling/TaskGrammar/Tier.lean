import TaskGrammar.Text.Basic

/-!
# `TaskGrammar.Tier`: how hard a task is

Grammars and gestures carry a tier. A request names a tier by a one-digit code, a
file names it by a word. The tiers are ordered by `rank`, with `unknown` below the
three that can be asked for.
-/

set_option autoImplicit false

namespace TaskGrammar

/-- The difficulty tiers, from the undeclared one to the hardest. -/
inductive Tier
  | unknown
  | easy
  | moderate
  | high
  deriving DecidableEq, Repr

namespace Tier

/-- The position of a tier in the order of difficulty. -/
def rank : Tier → Nat
  | unknown => 0
  | easy => 1
  | moderate => 2
  | high => 3

/-- One tier is at most another when its rank is. -/
instance : LE Tier := ⟨fun a b => a.rank ≤ b.rank⟩

instance (a b : Tier) : Decidable (a ≤ b) :=
  inferInstanceAs (Decidable (a.rank ≤ b.rank))

instance : Ord Tier := ⟨fun a b => compare a.rank b.rank⟩

/-- The word for a tier. -/
def name : Tier → Text
  | unknown => "Unknown".toList
  | easy => "Easy".toList
  | moderate => "Moderate".toList
  | high => "High".toList

/-- The tier that a request's code asks for: `1`, `2` or `3`. -/
def ofCode? (code : Text) : Option Tier :=
  if code = ['1'] then some easy
  else if code = ['2'] then some moderate
  else if code = ['3'] then some high
  else none

/-- The tier that a word names, whatever its case and the blanks around it. -/
def ofName? (word : Text) : Option Tier :=
  [unknown, easy, moderate, high].find? fun tier =>
    Text.normalize word == Text.normalize tier.name

end Tier

end TaskGrammar
