import TaskGrammar.Speech.Conversion
import TaskGrammar.Storage.Basic

/-!
# `TaskGrammar.Speech.Publication`: documents in files

The document of a grammar is published as a file named for the grammar. It is written
next to its place first and then moved there, so that the file at its place is always
a whole document.
-/

set_option autoImplicit false

namespace TaskGrammar.Speech

/-- Whether a name is a single plain component of a path. -/
def isFileName (name : Text) : Bool :=
  decide (name ≠ [] ∧ name ≠ ['.'] ∧ name ≠ ['.', '.'] ∧ '/' ∉ name ∧ '\\' ∉ name)

/-- The name of the file that holds a grammar's document. -/
def documentFileName (grammar : Grammar) : Except Fault Text :=
  if isFileName grammar.name then .ok (grammar.name ++ ".xml".toList)
  else .error (.invalidGrammarName grammar.name)

variable {m : Type → Type} [Monad m] [Storage m]

/-- Writes a file next to its place and moves it there. A file that is not moved is
removed. -/
def publish (path : Text) (content : Bytes) : m (Except StorageFault Unit) := do
  let temporary := path ++ ".tmp".toList
  match ← Storage.write temporary content with
  | .error fault =>
    let _ ← Storage.remove temporary
    pure (.error fault)
  | .ok () =>
    match ← Storage.rename temporary path with
    | .error fault =>
      let _ ← Storage.remove temporary
      pure (.error fault)
    | .ok () => pure (.ok ())

/-- Publishes a grammar's document in a directory, and gives its path. -/
def writeDocument (grammar : Grammar) (entities : Entities) (directory : Text) :
    m (Except Fault Text) := do
  match documentFileName grammar with
  | .error fault => pure (.error fault)
  | .ok name =>
    match convert grammar entities with
    | .error fault => pure (.error fault)
    | .ok document =>
      match ← publish (Path.join directory name) (Text.encode document) with
      | .error fault => pure (.error (.unwritten (Path.join directory name) fault))
      | .ok () => pure (.ok (Path.join directory name))

/-- Publishes the documents of several grammars, each with its outcome. -/
def writeDocuments (grammars : List Grammar) (entities : Entities) (directory : Text) :
    m (List (Text × Except Fault Text)) :=
  grammars.mapM fun grammar => do
    pure (grammar.name, ← writeDocument grammar entities directory)

end TaskGrammar.Speech
