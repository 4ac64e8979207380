import TaskGrammar.Fault

/-!
# `TaskGrammar.Storage.Basic`: files and directories

Paths are texts with slashes between their components. `Storage` is what the library
asks of files and directories; whatever offers it can hold grammars, datasets and
documents. `FileTree` (`TaskGrammar.Storage.FileTree`) offers it in pure code.

A system may have file names that are no texts. They are left out here: all names of
files and directories are in Unicode. What remains is that a path need not end in a name,
`Path.fileName?`.
-/

set_option autoImplicit false

namespace TaskGrammar

/-- An entry of a directory. -/
structure DirectoryEntry where
  name : Text
  isFile : Bool
  deriving DecidableEq, Repr

/-- Operations on files and directories that are named by their paths. -/
class Storage (m : Type → Type) where
  /-- The content of a file. -/
  read : Text → m (Except StorageFault Bytes)
  /-- The entries of a directory, in any order. -/
  list : Text → m (Except StorageFault (List DirectoryEntry))
  /-- Creates a file, or replaces its content. -/
  write : Text → Bytes → m (Except StorageFault Unit)
  /-- Moves a file to a path, in place of the file that may be there. -/
  rename : Text → Text → m (Except StorageFault Unit)
  /-- Removes a file. -/
  remove : Text → m (Except StorageFault Unit)
  /-- Creates a directory, and those around it, where they are not there. -/
  createDirectories : Text → m (Except StorageFault Unit)

namespace Path

/-- The path of a name in a directory. -/
def join (directory name : Text) : Text :=
  if directory = [] ∨ directory.getLast? = some '/' then directory ++ name
  else directory ++ ['/'] ++ name

/-- The name at the end of a path, where empty components and single dots stand for
nothing. A path that leads to where it starts has none, and one that ends by leading out of
a directory has none either. -/
def fileName? (path : Text) : Option Text :=
  ((Text.splitOn '/' path).filter fun part => part ≠ [] ∧ part ≠ ['.']).getLast?.filter
    fun part => part ≠ ['.', '.']

/-- A file name without its last extension, and that extension. A dot at the start of
a name does not make an extension. -/
def splitExtension (name : Text) : Text × Option Text :=
  match (name.reverse.dropWhile fun c => c != '.') with
  | [] => (name, none)
  | [_] => (name, none)
  | _ :: stem => (stem.reverse, some (name.reverse.takeWhile fun c => c != '.').reverse)

/-- The name at the end of a path without its extension. -/
def stem? (path : Text) : Option Text :=
  (fileName? path).map fun name => (splitExtension name).1

end Path

end TaskGrammar
