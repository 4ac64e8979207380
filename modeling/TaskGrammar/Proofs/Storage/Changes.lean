import TaskGrammar.Proofs.Text.Lines
import TaskGrammar.Storage.FileTree

/-!
# `TaskGrammar.Proofs.Storage.Changes`: what a change of files leaves alone

What a path names depends on the directories of a tree and on nothing else. Writing, moving and
removing files leave the directories where they are, so a path names the same place before and
after, and only the places of the paths that such an operation is given can look different. This
file says so in one relation between two trees, `ChangesAt`.

* `resolve_eq_ok_iff_of_directories`: trees with the same directories have the same paths.
* `changesAt_of_node?`: what is exchanged at the place of one path is such a change.
* `write_eq_ok`, `remove_eq_ok`, `rename_eq_ok`: what an operation does if it is not refused.
* `ChangesAt.read_eq_ok_iff`: a file at another place has the content that it had.
* `enters_of_resolve_join`: a path to a name in a directory names a place directly in the
  directory, so different names have different places.
-/

set_option autoImplicit false

namespace TaskGrammar.FileTree

variable {tree before after : FileTree}

/-! ### Nodes -/

/-- A place that is no directory is neither the current directory nor one around it, which all
are. -/
theorem isAround_eq_false {place : Place} (h : tree.node? place ≠ some .directory) :
    isAround place = false := by
  refine Bool.eq_false_iff.mpr fun haround => h ?_
  rw [node?, if_pos haround]

/-- Without the entries of a place, it has no node, and every other place has the node it had.
This is the only fact about the list of nodes from which the effect of an update is derived. -/
theorem lookup_filter_ne (nodes : List (Place × FileNode)) (place other : Place) :
    (nodes.filter fun entry => entry.1 ≠ place).lookup other
      = if other = place then none else nodes.lookup other := by
  induction nodes with
  | nil => simp
  | cons entry rest ih =>
    obtain ⟨first, node⟩ := entry
    -- The entry is filtered out if it is at the place. Otherwise it answers for its own place.
    by_cases hfirst : first = place
    · rw [List.filter_cons_of_neg (by simpa using hfirst), ih, List.lookup_cons]
      by_cases hother : other = place
      · rw [if_pos hother, if_pos hother]
      · have hne : (other == first) = false := by
          rw [beq_eq_false_iff_ne, hfirst]
          exact hother
        rw [if_neg hother, if_neg hother, hne]
    · rw [List.filter_cons_of_pos (by simpa using hfirst), List.lookup_cons, List.lookup_cons, ih]
      by_cases hother : other = first
      · subst hother
        simp only [beq_self_eq_true, if_neg hfirst]
      · rw [beq_eq_false_iff_ne.mpr hother]

/-- What is erased is gone, and every other place has what it had. This is for files: a directory
may be there without an entry of its own. -/
theorem node?_erase {place : Place} (h : tree.node? place ≠ some .directory) (other : Place) :
    (tree.erase place).node? other = if other = place then none else tree.node? other := by
  have haround := isAround_eq_false h
  by_cases hother : other = place
  · rw [if_pos hother, hother, node?, if_neg (by rw [haround]; exact Bool.false_ne_true), erase,
      lookup_filter_ne, if_pos rfl]
  · rw [if_neg hother, node?, node?, erase, lookup_filter_ne, if_neg hother]

/-- What is put at a place is there afterwards, and every other place has what it had. A directory
cannot be replaced in this way, since what is in it would have lost its place. -/
theorem node?_put {place : Place} (h : tree.node? place ≠ some .directory) (node : FileNode)
    (other : Place) :
    (tree.put place node).node? other = if other = place then some node else tree.node? other := by
  have haround := isAround_eq_false h
  by_cases hother : other = place
  · rw [if_pos hother, hother, node?, if_neg (by rw [haround]; exact Bool.false_ne_true), put,
      List.lookup_append, lookup_filter_ne, if_pos rfl, Option.none_or, List.lookup_cons_self]
  · have hne : (other == place) = false := beq_eq_false_iff_ne.mpr hother
    rw [if_neg hother, node?, node?, put, List.lookup_append, lookup_filter_ne, if_neg hother,
      List.lookup_cons, hne, List.lookup_nil, Option.or_none]

/-! ### Paths -/

/-- A component is looked up in a directory only. From a file, or from a place where nothing is, a
walk goes no further. -/
theorem walk_cons_ne_ok {place : Place} (h : tree.node? place ≠ some .directory) (part : Text)
    (rest : List Text) (target : Place) : tree.walk place (part :: rest) ≠ .ok target := by
  rw [walk]
  cases hnode : tree.node? place with
  | none => simp
  | some node =>
    cases node with
    | directory => exact absurd hnode h
    | file content => simp

/-- Trees with the same directories are walked through in the same way. Where a walk ends early,
they may differ in the reason. -/
theorem walk_eq_ok_iff_of_directories
    (h : ∀ place, after.node? place = some .directory ↔ before.node? place = some .directory)
    (parts : List Text) (place target : Place) :
    after.walk place parts = .ok target ↔ before.walk place parts = .ok target := by
  induction parts generalizing place with
  | nil => rfl
  | cons part rest ih =>
    by_cases hbefore : before.node? place = some .directory
    · -- Both walks are in the same directory, and the component says where they go.
      rw [walk, walk, hbefore, (h place).mpr hbefore]
      dsimp only
      split
      · exact ih place
      · split
        · exact ih (parent place)
        · split
          · rfl
          · exact ih (place ++ [part])
    · have hafter : after.node? place ≠ some .directory := fun hdir => hbefore ((h place).mp hdir)
      exact iff_of_false (walk_cons_ne_ok hafter part rest target)
        (walk_cons_ne_ok hbefore part rest target)

/-- A path leads to a place if it is a path at all and a walk along its components ends there. Why
a walk fails is left out, since changes are compared where they succeed. -/
theorem resolve_eq_ok_iff {path : Text} {place : Place} :
    tree.resolve path = .ok place ↔
      checkPath path = .ok () ∧ path ≠ [] ∧
        tree.walk (start path) (Text.splitOn '/' path) = .ok place := by
  unfold resolve
  cases checkPath path with
  | error fault => simp [bind, Except.bind]
  | ok _ =>
    by_cases hpath : path = []
    · simp [bind, Except.bind, hpath]
    · simp [bind, Except.bind, hpath]

/-- Only the directories decide where paths lead to, so a change of files leaves every path at its
place. -/
theorem resolve_eq_ok_iff_of_directories
    (h : ∀ place, after.node? place = some .directory ↔ before.node? place = some .directory)
    (path : Text) (place : Place) :
    after.resolve path = .ok place ↔ before.resolve path = .ok place := by
  rw [resolve_eq_ok_iff, resolve_eq_ok_iff, walk_eq_ok_iff_of_directories h]

/-- To read a file its path has to lead to it, and there has to be a file. So what can be read is
told by the nodes alone. -/
theorem read_eq_ok_iff {path : Text} {content : Bytes} :
    tree.read path = .ok content ↔
      ∃ place, tree.resolve path = .ok place ∧ tree.node? place = some (.file content) := by
  unfold read
  cases tree.resolve path with
  | error fault => simp [bind, Except.bind]
  | ok place =>
    cases hnode : tree.node? place with
    | none => simp [bind, Except.bind, hnode]
    | some node => cases node <;> simp [bind, Except.bind, hnode]

/-! ### Changes -/

/-- A tree after a change of files at the places of some paths: directories are where they
were, and what is at any other place is as it was. -/
structure ChangesAt (paths : List Text) (before after : FileTree) : Prop where
  directories : ∀ place,
    after.node? place = some .directory ↔ before.node? place = some .directory
  others : ∀ place, (∀ path ∈ paths, before.resolve path ≠ .ok place) →
    after.node? place = before.node? place

namespace ChangesAt

variable {paths : List Text}

/-- A change of files leaves every path at its place. -/
theorem resolve_eq_ok_iff (h : ChangesAt paths before after) (path : Text) (place : Place) :
    after.resolve path = .ok place ↔ before.resolve path = .ok place :=
  resolve_eq_ok_iff_of_directories h.directories path place

/-- A file at a place that no path of the change names has the content that it had. The paths may
be spelled in other ways, so it is places that are compared. -/
theorem read_eq_ok_iff (h : ChangesAt paths before after) {path : Text}
    (hpath : ∀ other ∈ paths, ∀ place, before.resolve path = .ok place →
      before.resolve other ≠ .ok place) (content : Bytes) :
    after.read path = .ok content ↔ before.read path = .ok content := by
  rw [FileTree.read_eq_ok_iff, FileTree.read_eq_ok_iff]
  refine exists_congr fun place => ?_
  rw [h.resolve_eq_ok_iff]
  refine and_congr_right fun hresolve => ?_
  rw [h.others place fun other hother => hpath other hother place hresolve]

end ChangesAt

/-- Only what is at one place is exchanged, and it is a directory neither before nor after. That
no directory comes or goes is what keeps all other paths at their places. -/
theorem changesAt_of_node? {path : Text} {place : Place}
    (hresolve : tree.resolve path = .ok place) (h : tree.node? place ≠ some .directory)
    {node : Option FileNode} (hnode : node ≠ some .directory)
    (hafter : ∀ other, after.node? other = if other = place then node else tree.node? other) :
    ChangesAt [path] tree after where
  directories other := by
    rw [hafter]
    split
    · rename_i hother
      rw [hother]
      exact iff_of_false hnode h
    · rfl
  others other hother := by
    rw [hafter, if_neg]
    rintro rfl
    exact hother path List.mem_cons_self hresolve

/-! ### Operations -/

/-- What a write that is not refused has done: there is no directory in its way, and the file is
put there. -/
theorem write_eq_ok {path : Text} {content : Bytes} (h : tree.write path content = .ok after) :
    ∃ place, tree.resolve path = .ok place ∧ tree.node? place ≠ some .directory ∧
      after = tree.put place (.file content) := by
  unfold write at h
  cases hresolve : tree.resolve path with
  | error fault => simp [hresolve, bind, Except.bind] at h
  | ok place =>
    simp only [hresolve, bind, Except.bind] at h
    split at h
    · cases h
    · rename_i hnode
      exact ⟨place, rfl, hnode, (Except.ok.inj h).symm⟩

/-- What a removal has done that is not refused. There was a file at the place of the path, and it
has been erased. -/
theorem remove_eq_ok {path : Text} (h : tree.remove path = .ok after) :
    ∃ place, tree.resolve path = .ok place ∧ tree.node? place ≠ some .directory ∧
      after = tree.erase place := by
  unfold remove at h
  cases hresolve : tree.resolve path with
  | error fault => simp [hresolve, bind, Except.bind] at h
  | ok place =>
    simp only [hresolve, bind, Except.bind] at h
    split at h
    · cases h
    · cases h
    · rename_i content hnode
      refine ⟨place, rfl, ?_, (Except.ok.inj h).symm⟩
      simp [hnode]

/-- And what a renaming has done. There was a file to be moved, and it takes the place of one that
was there, but not of a directory. -/
theorem rename_eq_ok {source target : Text} (h : tree.rename source target = .ok after) :
    ∃ place place' content, tree.resolve source = .ok place ∧ tree.resolve target = .ok place' ∧
      tree.node? place = some (.file content) ∧ tree.node? place' ≠ some .directory ∧
      after = (tree.erase place).put place' (.file content) := by
  unfold rename at h
  cases hsource : tree.resolve source with
  | error fault => simp [hsource, bind, Except.bind] at h
  | ok place =>
    cases htarget : tree.resolve target with
    | error fault => simp [hsource, htarget, bind, Except.bind] at h
    | ok place' =>
      simp only [hsource, htarget, bind, Except.bind] at h
      split at h
      · cases h
      · cases h
      · cases h
      · rename_i content hnode hnode'
        exact ⟨place, place', content, rfl, rfl, hnode, hnode', (Except.ok.inj h).symm⟩

/-! ### Names in a directory -/

/-- A name that stands for itself in a path. -/
structure IsName (name : Text) : Prop where
  ne_nil : name ≠ []
  ne_dot : name ≠ ['.']
  ne_outward : name ≠ outward
  slash : '/' ∉ name

/-- A path to a name in a directory has the components of the directory's own path, with the name
in place of the empty one that may be the last of them, or after them. -/
theorem exists_splitOn_join (directory : Text) {name : Text} (h : '/' ∉ name) :
    ∃ parts, Text.splitOn '/' (Path.join directory name) = parts ++ [name] ∧
      (Text.splitOn '/' directory = parts ∨ Text.splitOn '/' directory = parts ++ [[]]) := by
  have hname : Text.splitOn '/' name = [name] := Text.splitOn_of_notMem h
  unfold Path.join
  split
  · rename_i hdirectory
    rcases hdirectory with rfl | hslash
    · exact ⟨[], by rw [List.nil_append, hname, List.nil_append], .inr rfl⟩
    · -- The slash between the two is the directory's own.
      obtain ⟨front, rfl⟩ := List.getLast?_eq_some_iff.mp hslash
      refine ⟨Text.splitOn '/' front, ?_, .inr ?_⟩
      · rw [List.append_assoc, List.singleton_append, Text.splitOn_append_mark, hname]
      · rw [Text.splitOn_append_mark]
        rfl
  · refine ⟨Text.splitOn '/' directory, ?_, .inl rfl⟩
    rw [List.append_assoc, List.singleton_append, Text.splitOn_append_mark, hname]

/-- A name in a directory is looked up from where the directory is. An empty path stands for the
current directory, which is why the two cases are apart. -/
theorem start_join (directory : Text) {name : Text} (h : '/' ∉ name) :
    start (Path.join directory name) = start directory := by
  cases directory with
  | nil =>
    have hhead : name.head? ≠ some '/' := fun hhead => h (List.mem_of_head? hhead)
    show start name = start []
    rw [start, if_neg hhead]
    rfl
  | cons c rest =>
    have hhead : (Path.join (c :: rest) name).head? = (c :: rest).head? := by
      unfold Path.join
      split <;> rfl
    rw [start, start, hhead]

/-- A walk of two parts goes on where the first part ends. The faults are compared as well, so it
is an equation. -/
theorem walk_append (parts more : List Text) (place : Place) :
    tree.walk place (parts ++ more)
      = (tree.walk place parts).bind fun reached => tree.walk reached more := by
  induction parts generalizing place with
  | nil => rfl
  | cons part rest ih =>
    rw [List.cons_append, walk, walk]
    split
    · rfl
    · rfl
    · split
      · exact ih place
      · split
        · exact ih (parent place)
        · split
          · rfl
          · exact ih (place ++ [part])

/-- A text, as the path of a directory, leads to a place. The empty text is taken for the current
directory, as it is in front of a name. -/
structure Enters (tree : FileTree) (directory : Text) (around : Place) : Prop where
  walk : tree.walk (start directory) (Text.splitOn '/' directory) = .ok around
  node : tree.node? around = some .directory

/-- The last step of a walk enters the name in the directory that is reached before. A name is
neither of the two that lead elsewhere. -/
theorem walk_singleton {name : Text} (h : IsName name) {around target : Place}
    (hwalk : tree.walk around [name] = .ok target) :
    tree.node? around = some .directory ∧ target = around ++ [name] := by
  by_cases hdirectory : tree.node? around = some .directory
  · rw [FileTree.walk, hdirectory] at hwalk
    simp only [h.ne_nil, h.ne_dot, h.ne_outward, or_self, if_false] at hwalk
    split at hwalk
    · cases hwalk
    · exact ⟨hdirectory, (Except.ok.inj hwalk).symm⟩
  · exact absurd hwalk (walk_cons_ne_ok hdirectory _ _ _)

/-- A path to a name in a directory names a place directly in the directory. So different names
have different places, and the directory has a place of its own. -/
theorem enters_of_resolve_join {directory name : Text} (h : IsName name) {place : Place}
    (hresolve : tree.resolve (Path.join directory name) = .ok place) :
    ∃ around, tree.Enters directory around ∧ place = around ++ [name] := by
  obtain ⟨-, -, hwalk⟩ := resolve_eq_ok_iff.mp hresolve
  obtain ⟨parts, hparts, hdirectory⟩ := exists_splitOn_join directory h.slash
  rw [hparts, start_join directory h.slash, walk_append] at hwalk
  cases hfront : tree.walk (start directory) parts with
  | error fault =>
    rw [hfront] at hwalk
    cases hwalk
  | ok around =>
    rw [hfront] at hwalk
    obtain ⟨hnode, hplace⟩ := walk_singleton h hwalk
    refine ⟨around, ⟨?_, hnode⟩, hplace⟩
    rcases hdirectory with hdirectory | hdirectory
    · rw [hdirectory, hfront]
    · -- An empty component at the end stays in the directory.
      rw [hdirectory, walk_append, hfront]
      show tree.walk around [[]] = .ok around
      rw [FileTree.walk, hnode]
      rfl

/-- A path of a directory leads to one place. -/
theorem Enters.unique {directory : Text} {around other : Place}
    (h : tree.Enters directory around) (h' : tree.Enters directory other) : around = other :=
  Except.ok.inj (h.walk.symm.trans h'.walk)

/-- Different names in a directory have different places. -/
theorem resolve_join_ne {directory name other : Text} (hname : IsName name)
    (hother : IsName other) (h : name ≠ other) {place : Place}
    (hresolve : tree.resolve (Path.join directory name) = .ok place) :
    tree.resolve (Path.join directory other) ≠ .ok place := by
  intro hresolve'
  obtain ⟨around, -, hplace⟩ := enters_of_resolve_join hname hresolve
  obtain ⟨around', -, hplace'⟩ := enters_of_resolve_join hother hresolve'
  exact h (List.singleton_inj.mp (List.append_inj' (hplace.symm.trans hplace') rfl).2)

end TaskGrammar.FileTree
