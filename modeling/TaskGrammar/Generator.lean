import TaskGrammar.Expansion
import TaskGrammar.Settings

/-!
# `TaskGrammar.Generator`: tasks of a tier

A generator holds grammars, datasets and settings that fit together. For a tier it
picks a grammar of exactly that tier, or, when there is none, one of a lower tier,
and expands it.
-/

set_option autoImplicit false

namespace TaskGrammar

/-- Grammars and datasets from which tasks are generated. -/
structure Generator where
  grammars : List Grammar
  entities : Entities
  settings : Settings

namespace Generator

/-- Fails at the first grammar without a root rule. -/
def checkRoots : List Grammar → Except Fault Unit
  | [] => .ok ()
  | grammar :: rest =>
    match grammar.checkRoot with
    | .error fault => .error fault
    | .ok () => checkRoots rest

/-- A generator, if every grammar has a root rule and, where the settings ask for it,
the places of all categories are there. -/
def build (grammars : List Grammar) (entities : Entities) (settings : Settings) :
    Except Fault Generator :=
  match checkRoots grammars with
  | .error fault => .error fault
  | .ok () =>
    match if settings.checkPlaces then entities.checkPlaces else .ok () with
    | .error fault => .error fault
    | .ok () => .ok { grammars := grammars, entities := entities, settings := settings }

/-- The grammars of a tier. -/
def ofTier (generator : Generator) (tier : Tier) : List Grammar :=
  generator.grammars.filter fun grammar => grammar.tier = tier

/-- The grammars of a tier and of the lower ones. -/
def upToTier (generator : Generator) (tier : Tier) : List Grammar :=
  generator.grammars.filter fun grammar => grammar.tier ≤ tier

variable {σ : Type} [RandomSource σ]

/-- Picks a grammar for a tier: one of that tier if there is one, and else one of a
lower tier. No task is generated for the unknown tier. -/
def selectGrammar (generator : Generator) (tier : Tier) : Draw σ Grammar :=
  if tier = .unknown then throw (.invalidDifficulty tier.name)
  else do
    -- Nothing is drawn from the source while no grammar qualifies.
    match ← Random.drawKept (generator.ofTier tier) with
    | some grammar => pure grammar
    | none =>
      match ← Random.drawKept (generator.upToTier tier) with
      | some grammar => pure grammar
      | none => throw (.noGrammarForTier tier)

/-- How the generator expands a grammar. -/
def expansion (generator : Generator) (grammar : Grammar) : Expansion :=
  { grammar := grammar, entities := generator.entities,
    limit := generator.settings.maxDepth.toNat }

/-- A task of a tier. -/
def task (generator : Generator) (tier : Tier) : Draw σ Task := do
  let grammar ← generator.selectGrammar tier
  (generator.expansion grammar).task

/-- A task for a request's code; no task for a code that names no tier. -/
def taskForCode (generator : Generator) (code : Text) : Draw σ (Option Task) :=
  match Tier.ofCode? code with
  | none => pure none
  | some tier => do
    let task ← generator.task tier
    pure (some task)

end Generator

end TaskGrammar
