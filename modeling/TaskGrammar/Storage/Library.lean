import TaskGrammar.Entity.Entities
import TaskGrammar.Entity.Source
import TaskGrammar.Grammar.Source
import TaskGrammar.Settings
import TaskGrammar.Storage.Basic

/-!
# `TaskGrammar.Storage.Library`: grammars, datasets and settings in files

Grammars are the files with the extension `txt` of a directory, in the order of their
names. Datasets are five files of a directory, of which any may be missing; a file that
is there must be readable. A grammar without a name takes the name of its file.
-/

set_option autoImplicit false

namespace TaskGrammar

variable {m : Type → Type} [Monad m] [Storage m]

/-- The content of a file as text. -/
def readText (path : Text) : m (Except StorageFault Text) := do
  match ← Storage.read path with
  | .error fault => pure (.error fault)
  | .ok content =>
    match Text.decode? content with
    | none => pure (.error .invalidEncoding)
    | some text => pure (.ok text)

/-- Whether a directory entry is a grammar file. -/
def DirectoryEntry.isGrammar (entry : DirectoryEntry) : Bool :=
  entry.isFile && (Path.splitExtension entry.name).2 == some "txt".toList

/-- The names of the grammar files among some entries, in order. -/
def grammarNames (entries : List DirectoryEntry) : List Text :=
  ((entries.filter DirectoryEntry.isGrammar).map DirectoryEntry.name).mergeSort Text.le

namespace Grammar

/-- The grammar whose source is in a file. Its name is that of the file, unless the source
gives it another one; a path without a file name is refused, whatever the source is. -/
def ofSource (path source : Text) : Except Fault Grammar :=
  match Path.stem? path with
  | none => .error (.invalidFileName path)
  | some name => parse name source

/-- The grammar in a file. The file is read before its name is looked at. -/
def load (path : Text) : m (Except Fault Grammar) := do
  match ← readText path with
  | .error fault => pure (.error (.storage fault))
  | .ok source => pure (ofSource path source)

/-- The grammars in some files, up to the first fault. -/
def loadEach : List Text → m (Except Fault (List Grammar))
  | [] => pure (.ok [])
  | path :: rest => do
    match ← load path with
    | .error fault => pure (.error fault)
    | .ok grammar =>
      match ← loadEach rest with
      | .error fault => pure (.error fault)
      | .ok grammars => pure (.ok (grammar :: grammars))

/-- The grammars in a directory. -/
def loadAll (directory : Text) : m (Except Fault (List Grammar)) := do
  match ← Storage.list directory with
  | .error fault => pure (.error (.storage fault))
  | .ok entries => loadEach ((grammarNames entries).map (Path.join directory))

end Grammar

/-- The entities of a dataset file; none, if the file is missing. -/
def loadDataset {α : Type} (directory file : Text) (parse : Text → Except Fault (List α)) :
    m (Except Fault (List α)) := do
  match ← readText (Path.join directory file) with
  | .error .notFound => pure (.ok [])
  | .error fault => pure (.error (.datasetLoad file (.storage fault)))
  | .ok source =>
    match parse source with
    | .ok items => pure (.ok items)
    | .error fault => pure (.error (.datasetLoad file fault))

/-- The datasets in a directory. -/
def Entities.load (directory : Text) : m (Except Fault Entities) := ExceptT.run do
  let objects ← ExceptT.mk (loadDataset directory "Objects.xml".toList parseObjects)
  let names ← ExceptT.mk (loadDataset directory "Names.xml".toList parseNames)
  let locations ← ExceptT.mk (loadDataset directory "Locations.xml".toList parseLocations)
  let gestures ← ExceptT.mk (loadDataset directory "Gestures.xml".toList parseGestures)
  let questions ← ExceptT.mk (loadDataset directory "Questions.xml".toList parseQuestions)
  pure <| Entities.empty.withObjects objects |>.withNames names |>.withLocations locations
    |>.withGestures gestures |>.withQuestions questions

/-- The settings in a file. -/
def Settings.load (path : Text) : m (Except Fault Settings) := do
  match ← readText path with
  | .error fault => pure (.error (.storage fault))
  | .ok source => pure (parse source)

end TaskGrammar
