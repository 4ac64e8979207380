import TaskGrammar.Storage.Basic

/-!
# `TaskGrammar.Storage.FileTree`: files and directories as a value

A file tree lists files and directories by their place, as it is seen from the current
directory. Around that there are other directories, of which nothing is known at first,
so they are taken as empty. A path is followed from the current directory, or from the
outermost one if it starts with a slash. It has at most 4095 bytes. A component of it is
looked up only in a directory that exists, its name has at most 255 bytes, and `.` and
`..` have their usual meaning.

`FileTree.node?` is the view of a tree: what is at each place. Computations over a
tree, `StateM FileTree`, are a `Storage`.
-/

set_option autoImplicit false

namespace TaskGrammar

/-- What can be at a place of a file tree. -/
inductive FileNode
  | directory
  | file (content : Bytes)
  deriving DecidableEq, Repr

/-- A place in a file tree: the names on the way to it from the current directory, `..`
first for each directory that the way leads out of, or from the outermost directory,
whose name is a slash. -/
abbrev Place := List Text

/-- Files and directories, place by place. The current directory and those around it are
always there. -/
structure FileTree where
  nodes : List (Place × FileNode)
  deriving DecidableEq, Repr

namespace FileTree

/-- The tree of an empty directory. -/
def empty : FileTree :=
  { nodes := [] }

/-- The component of a path that leads out of a directory. -/
def outward : Text :=
  ['.', '.']

/-- The outermost directory. -/
def outermost : Place :=
  [['/']]

/-- Whether a place is the current directory or one around it. -/
def isAround (place : Place) : Bool :=
  place = outermost ∨ place.all fun name => name = outward

/-- The directory around a place; the outermost one is around itself. -/
def parent (place : Place) : Place :=
  if place = outermost then outermost
  else if isAround place then place ++ [outward]
  else place.dropLast

/-- What is at a place. -/
def node? (tree : FileTree) (place : Place) : Option FileNode :=
  if isAround place then some .directory else tree.nodes.lookup place

/-- Puts a node to a place, instead of what is there. -/
def put (tree : FileTree) (place : Place) (node : FileNode) : FileTree :=
  { nodes := (tree.nodes.filter fun entry => entry.1 ≠ place) ++ [(place, node)] }

/-- Takes away what is at a place. -/
def erase (tree : FileTree) (place : Place) : FileTree :=
  { nodes := tree.nodes.filter fun entry => entry.1 ≠ place }

/-- The greatest number of bytes of a name. -/
def maxNameLength : Nat :=
  255

/-- The greatest number of bytes of a path. -/
def maxPathLength : Nat :=
  4095

/-- Refuses a path that has no meaning in any tree. -/
def checkPath (path : Text) : Except StorageFault Unit :=
  if '\x00' ∈ path then .error .invalidName
  else if maxPathLength < Text.utf8Length path then .error .nameTooLong
  else .ok ()

/-- The directory from which a path is followed. -/
def start (path : Text) : Place :=
  if path.head? = some '/' then outermost else []

/-- Follows the components of a path from a place. Each is looked up in a directory;
what the last one names need not exist. -/
def walk (tree : FileTree) (place : Place) : List Text → Except StorageFault Place
  | [] => .ok place
  | part :: rest =>
    match tree.node? place with
    | none => .error .notFound
    | some (.file _) => .error .notADirectory
    | some .directory =>
      if part = [] ∨ part = ['.'] then walk tree place rest
      else if part = outward then walk tree (parent place) rest
      else if maxNameLength < Text.utf8Length part then .error .nameTooLong
      else walk tree (place ++ [part]) rest

/-- The place that a path names. -/
def resolve (tree : FileTree) (path : Text) : Except StorageFault Place := do
  checkPath path
  if path = [] then .error .notFound else walk tree (start path) (Text.splitOn '/' path)

/-- The content of a file. -/
def read (tree : FileTree) (path : Text) : Except StorageFault Bytes := do
  match tree.node? (← tree.resolve path) with
  | none => .error .notFound
  | some .directory => .error .isADirectory
  | some (.file content) => .ok content

/-- Whether a path leads to a file. -/
def isFile (tree : FileTree) (path : Text) : Bool :=
  match tree.read path with
  | .ok _ => true
  | .error _ => false

/-- The name of a place directly below another one, if it is there. -/
def childName? (parent place : Place) : Option Text :=
  if place.dropLast = parent then place.getLast? else none

/-- The entries of a directory. One with too long a path counts as no file. -/
def list (tree : FileTree) (path : Text) : Except StorageFault (List DirectoryEntry) := do
  let place ← tree.resolve path
  match tree.node? place with
  | none => .error .notFound
  | some (.file _) => .error .notADirectory
  | some .directory =>
    .ok <| tree.nodes.filterMap fun entry =>
      (childName? place entry.1).map fun name =>
        { name := name, isFile := tree.isFile (Path.join path name) }

/-- The tree with a file written. -/
def write (tree : FileTree) (path : Text) (content : Bytes) : Except StorageFault FileTree := do
  let place ← tree.resolve path
  match tree.node? place with
  | some .directory => .error .isADirectory
  | _ => .ok (tree.put place (.file content))

/-- The tree with a file moved. -/
def rename (tree : FileTree) (source target : Text) : Except StorageFault FileTree := do
  let source ← tree.resolve source
  let target ← tree.resolve target
  match tree.node? source, tree.node? target with
  | none, _ => .error .notFound
  | some .directory, _ => .error .isADirectory
  | _, some .directory => .error .isADirectory
  | some (.file content), _ => .ok ((tree.erase source).put target (.file content))

/-- The tree with a file removed. -/
def remove (tree : FileTree) (path : Text) : Except StorageFault FileTree := do
  let place ← tree.resolve path
  match tree.node? place with
  | none => .error .notFound
  | some .directory => .error .isADirectory
  | some (.file _) => .ok (tree.erase place)

/-- Creates the directories that components lead to from a place, where they are not
there; the tree that is reached, also if a later component is refused. -/
def createFrom (tree : FileTree) (place : Place) :
    List Text → Except StorageFault Unit × FileTree
  | [] => (.ok (), tree)
  | part :: rest =>
    if part = ['.'] then createFrom tree place rest
    else if part = outward then createFrom tree (parent place) rest
    else if maxNameLength < Text.utf8Length part then (.error .nameTooLong, tree)
    else
      match tree.node? (place ++ [part]) with
      | some .directory => createFrom tree (place ++ [part]) rest
      | some (.file _) => (.error .alreadyExists, tree)
      | none => createFrom (tree.put (place ++ [part]) .directory) (place ++ [part]) rest

/-- Creates the directories on a path. A `.` at its end names no directory of its own,
but it is looked up in the directory before it, which is therefore not created: it must
be there. -/
def createDirectories (tree : FileTree) (path : Text) : Except StorageFault Unit × FileTree :=
  let parts := (Text.splitOn '/' path).filter fun part => part ≠ []
  match checkPath path with
  | .error fault => (.error fault, tree)
  | .ok () =>
    if parts.getLast? = some ['.'] then
      match createFrom tree (start path) (parts.filter fun part => part ≠ ['.']).dropLast with
      | (.error fault, tree') => (.error fault, tree')
      | (.ok (), tree') => ((tree'.resolve path).map fun _ => (), tree')
    else createFrom tree (start path) parts

/-- The tree with a file at a path, and with the directories around it. -/
def addFile (tree : FileTree) (path : Text) (content : Bytes) : FileTree :=
  let parts := (Text.splitOn '/' path).filter fun part => part ≠ [] ∧ part ≠ ['.']
  (createFrom tree [] parts.dropLast).2.put parts (.file content)

/-- The way from a place to one below it, if it is below. -/
def relative? (base place : Place) : Option Place :=
  let rest := place.drop base.length
  if base.isPrefixOf place ∧ rest ≠ [] ∧ rest.head? ≠ some outward then some rest else none

/-- What is below the place of a path, each with its path from there. Nothing is below a
path that names no directory. -/
def below (tree : FileTree) (path : Text) : List (Place × FileNode) :=
  match tree.resolve path with
  | .error _ => []
  | .ok base =>
    tree.nodes.filterMap fun entry => (relative? base entry.1).map fun rest => (rest, entry.2)

/-- A change of a tree that may be refused; a refused one changes nothing. -/
def attempt (change : FileTree → Except StorageFault FileTree) :
    StateM FileTree (Except StorageFault Unit) := fun tree =>
  match change tree with
  | .ok tree' => (.ok (), tree')
  | .error fault => (.error fault, tree)

/-- Computations over a file tree work on its files and directories. -/
instance : Storage (StateM FileTree) where
  read path := fun tree => (tree.read path, tree)
  list path := fun tree => (tree.list path, tree)
  write path content := attempt fun tree => tree.write path content
  rename source target := attempt fun tree => tree.rename source target
  remove path := attempt fun tree => tree.remove path
  createDirectories path := fun tree => tree.createDirectories path

end FileTree

end TaskGrammar
