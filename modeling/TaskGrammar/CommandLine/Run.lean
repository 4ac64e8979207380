import TaskGrammar.CommandLine.Options
import TaskGrammar.Dialogue
import TaskGrammar.Grammar.Lint
import TaskGrammar.Random.Keystream
import TaskGrammar.Speech.Publication
import TaskGrammar.Storage.Library

/-!
# `TaskGrammar.CommandLine.Run`: what the program does

`run` carries out a command line over any storage: it generates tasks, publishes
documents, lists the problems of grammars, or answers requests. What it writes and the
code with which it exits are its result, `Outcome`.

* `announceAll`: what is said about each code of a `generate` command, with the random
  source going on from one to the next. `generateOutcome` is what is printed of it.
* `prepare`: the generator that `generate` and `serve` work with.
-/

set_option autoImplicit false

namespace TaskGrammar.CommandLine

/-- What a run of the program comes to. -/
structure Outcome where
  code : Nat
  output : Text
  notices : List Text
  /-- What ended the run early, if anything did. -/
  failure : Option Text
  deriving DecidableEq, Repr

namespace Outcome

/-- A run that ended well. -/
def success (output : Text) : Outcome :=
  { code := 0, output := output, notices := [], failure := none }

/-- A run that was ended by a fault, after some output. -/
def failed (output : Text) (fault : Fault) : Outcome :=
  { code := 1, output := output, notices := [], failure := some fault.message }

/-- A command line that asks for nothing the program knows. -/
def misuse : Outcome :=
  { code := 2, output := [], notices := [], failure := none }

end Outcome

/-- A line of output. -/
def line (content : Text) : Text :=
  content ++ ['\n']

/-- A shared value that nobody reads. -/
instance : SharedValue Unit where
  write _ value := (true, value)

/-- What is said about one code. -/
inductive Announcement
  | report (tier : Tier) (task : Task)
  | failure (tier : Tier) (fault : Fault)
  | invalidCode (code : Text)
  deriving DecidableEq, Repr

namespace Announcement

/-- What an announcement adds to the output. -/
def output : Announcement → Text
  | report tier task => line (['['] ++ tier.name ++ [']', '\n'] ++ task.report)
  | failure _ _ => []
  | invalidCode code =>
    line ("Invalid difficulty code ".toList ++ Text.quoted code ++
      "; expected 1, 2 or 3".toList)

/-- The notice that an announcement gives. -/
def notice? : Announcement → Option Text
  | failure tier fault =>
    some ("Failed to generate a ".toList ++ tier.name ++ " task: ".toList ++ fault.message)
  | _ => none

end Announcement

section Generate

variable {σ : Type} [RandomSource σ]

/-- What is said about a code, and the random source after it. -/
def announce (generator : Generator) (code : Text) (source : σ) : Announcement × σ :=
  match Tier.ofCode? code with
  | none => (.invalidCode code, source)
  | some tier =>
    match (generator.task tier).outcome source with
    | (.ok task, source') => (.report tier task, source')
    | (.error fault, source') => (.failure tier fault, source')

/-- What is said about codes in turn, and the random source after them. -/
def announceAll (generator : Generator) : List Text → σ → List Announcement × σ
  | [], source => ([], source)
  | code :: rest, source =>
    let first := announce generator code source
    let others := announceAll generator rest first.2
    (first.1 :: others.1, others.2)

/-- The outcome of generating a task for each code. A code without a task does not end the
run, and does not count against it. -/
def generateOutcome (generator : Generator) (codes : List Text) (source : σ) : Outcome :=
  let said := (announceAll generator codes source).1
  { Outcome.success (said.flatMap Announcement.output) with
    notices := said.filterMap Announcement.notice? }

end Generate

section Run

variable {m : Type → Type} [Monad m] [Storage m]

/-- The settings of a run: those of a file, or the standard ones. -/
def loadSettings : Option Text → m (Except Fault Settings)
  | none => pure (.ok .standard)
  | some path => Settings.load path

/-- The directory of the grammars. -/
def grammarDirectory (data : Text) : Text :=
  Path.join data "grammars".toList

/-- The grammars and the datasets of a run. -/
def loadData (data : Text) : m (Except Fault (List Grammar × Entities)) := ExceptT.run do
  let grammars ← ExceptT.mk (Grammar.loadAll (grammarDirectory data))
  let entities ← ExceptT.mk (Entities.load data)
  pure (grammars, entities)

/-- The generator of a run. A seed that is given counts more than that of the
settings. -/
def prepare (data : Text) (config : Option Text) (seed : Option UInt64) :
    m (Except Fault Generator) := ExceptT.run do
  let settings ← ExceptT.mk (loadSettings config)
  let settings := if seed.isSome then { settings with seed := seed } else settings
  let loaded ← ExceptT.mk (loadData data)
  ExceptT.mk (pure (Generator.build loaded.1 loaded.2 settings))

/-- The random source of a generator: that of its seed, or another one. -/
def sourceOf (generator : Generator) (entropy : Keystream) : Keystream :=
  match generator.settings.seed with
  | some seed => .ofSeed seed
  | none => entropy

/-- Generates a task for each code. -/
def runGenerate (data : Text) (config : Option Text) (seed : Option UInt64) (codes : List Text)
    (entropy : Keystream) : m Outcome := do
  match ← prepare data config seed with
  | .error fault => pure (.failed [] fault)
  | .ok generator => pure (generateOutcome generator codes (sourceOf generator entropy))

/-- The line about a document that was published. -/
def publishedLine? (result : Text × Except Fault Text) : Option Text :=
  match result.2 with
  | .ok path => some (line (result.1 ++ " -> ".toList ++ path))
  | .error _ => none

/-- The notice about a document that was not published. -/
def unpublishedNotice? (result : Text × Except Fault Text) : Option Text :=
  match result.2 with
  | .ok _ => none
  | .error fault => some (result.1 ++ ": ".toList ++ fault.message)

/-- The outcome of publishing some documents. -/
def publishingOutcome (results : List (Text × Except Fault Text)) : Outcome :=
  let notices := results.filterMap unpublishedNotice?
  { code := if notices.isEmpty then 0 else 1
    output := results.flatMap fun result => (publishedLine? result).getD []
    notices := notices
    failure :=
      if notices.isEmpty then none
      else some (Text.ofNat notices.length ++ " grammar(s) failed to convert".toList) }

/-- Publishes the documents of all grammars. -/
def runConvert (data out : Text) : m Outcome := do
  match ← loadData data with
  | .error fault => pure (.failed [] fault)
  | .ok (grammars, entities) =>
    match ← Storage.createDirectories out with
    | .error fault => pure (.failed [] (.storage fault))
    | .ok () => pure (publishingOutcome (← Speech.writeDocuments grammars entities out))

/-- The lines about the problems of a grammar. -/
def problemLines (grammar : Grammar) : List Text :=
  grammar.lint.map fun problem => line (grammar.name ++ ": ".toList ++ problem.message)

/-- The outcome of looking for problems in some grammars. -/
def lintOutcome (grammars : List Grammar) : Outcome :=
  let lines := grammars.flatMap problemLines
  { code := if lines.isEmpty then 0 else 1
    output := lines.flatten ++
      line (Text.ofNat grammars.length ++ " grammar(s) checked, ".toList ++
        Text.ofNat lines.length ++ " problem(s)".toList)
    notices := []
    failure := none }

/-- Lists the problems of all grammars. -/
def runLint (data : Text) : m Outcome := do
  match ← Grammar.loadAll (grammarDirectory data) with
  | .error fault => pure (.failed [] fault)
  | .ok grammars => pure (lintOutcome grammars)

/-- The outcome of serving a stream. -/
def serviceOutcome {σ τ : Type} (service : Handler.Service σ τ) : Outcome :=
  match service.fault with
  | none => .success (service.output.flatMap line)
  | some fault => .failed (service.output.flatMap line) fault

/-- Answers the requests of a stream. -/
def runServe (data : Text) (config : Option Text) (input : Bytes) (entropy : Keystream) :
    m Outcome := do
  match ← prepare data config none with
  | .error fault => pure (.failed [] fault)
  | .ok generator =>
    let handler : Handler Keystream Unit :=
      { generator := generator, source := sourceOf generator entropy, shared := none }
    pure (serviceOutcome (handler.serve input))

/-- Carries out what a command line asks for. -/
def run (invocation : Invocation) (input : Bytes) (entropy : Keystream) : m Outcome :=
  match invocation with
  | .generate data config seed codes => runGenerate data config seed codes entropy
  | .convert data out => runConvert data out
  | .lint data => runLint data
  | .serve data config => runServe data config input entropy
  | .help => pure (.success [])
  | .misuse => pure .misuse

end Run

end TaskGrammar.CommandLine
