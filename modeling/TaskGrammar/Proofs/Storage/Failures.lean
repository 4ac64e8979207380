import TaskGrammar.Proofs.Storage.Changes

/-!
# `TaskGrammar.Proofs.Storage.Failures`: files that may fail at any time

A file tree refuses an operation only for what the tree is like. A real storage may also refuse
one because a disk is full or a device is gone, and then a write can stop halfway and leave a file
with a part of its content, or with anything else. What can still be relied on is stated here for
any storage that can be viewed as a file tree: a write touches its own file only, a move takes
place as a whole or not at all, and a file that is there can be removed.

* `FailsCleanly`: the assumptions, operation by operation.
* `failsCleanly_fileTree`: computations over a file tree meet them.
* `failsCleanly_disk`: so do computations over a disk with little room, where writes do stop
  halfway.
* `FailsCleanly.losesAtMost_remove`: after a write, whatever has become of it, the removal of its
  file leaves nothing new.
-/

set_option autoImplicit false

namespace TaskGrammar

namespace FileTree

variable {tree before middle after : FileTree}

/-! ### What is at each place after an operation -/

/-- A change of a tree succeeds, and these are the files after it. Two trees with the same files
may have their entries in different orders, so only what is at each place is compared. -/
def Becomes (change : Except StorageFault FileTree) (after : FileTree) : Prop :=
  ∃ tree, change = .ok tree ∧ after.node? = tree.node?

/-- After a write the content is at its place and everything else is as it was. -/
theorem Becomes.node?_write {path : Text} {content : Bytes}
    (h : Becomes (before.write path content) after) :
    ∃ place, before.resolve path = .ok place ∧ before.node? place ≠ some .directory ∧
      ∀ other, after.node? other
        = if other = place then some (.file content) else before.node? other := by
  obtain ⟨tree, hwrite, hafter⟩ := h
  obtain ⟨place, hresolve, hnode, rfl⟩ := write_eq_ok hwrite
  exact ⟨place, hresolve, hnode, fun other => by rw [hafter, node?_put hnode]⟩

/-- After a removal nothing is at its place. -/
theorem Becomes.node?_remove {path : Text} (h : Becomes (before.remove path) after) :
    ∃ place, before.resolve path = .ok place ∧ before.node? place ≠ some .directory ∧
      ∀ other, after.node? other = if other = place then none else before.node? other := by
  obtain ⟨tree, hremove, hafter⟩ := h
  obtain ⟨place, hresolve, hnode, rfl⟩ := remove_eq_ok hremove
  exact ⟨place, hresolve, hnode, fun other => by rw [hafter, node?_erase hnode]⟩

/-- After a renaming the content is at the target, and the source is empty unless it is the
target. -/
theorem Becomes.node?_rename {source target : Text}
    (h : Becomes (before.rename source target) after) :
    ∃ place place' content, before.resolve source = .ok place ∧
      before.resolve target = .ok place' ∧ before.node? place = some (.file content) ∧
      before.node? place' ≠ some .directory ∧
      ∀ other, after.node? other
        = if other = place' then some (.file content)
          else if other = place then none else before.node? other := by
  obtain ⟨tree, hrename, hafter⟩ := h
  obtain ⟨place, place', content, hsource, htarget, hnode, hnode', rfl⟩ := rename_eq_ok hrename
  refine ⟨place, place', content, hsource, htarget, hnode, hnode', fun other => ?_⟩
  have hfile : before.node? place ≠ some .directory := by simp [hnode]
  have herase : (before.erase place).node? place' ≠ some .directory := by
    rw [node?_erase hfile]
    split
    · simp
    · exact hnode'
  rw [hafter, node?_put herase, node?_erase hfile]

/-- A file that is there can be removed. -/
theorem remove_of_file {path : Text} {place : Place} {content : Bytes}
    (hresolve : tree.resolve path = .ok place) (hnode : tree.node? place = some (.file content)) :
    tree.remove path = .ok (tree.erase place) := by
  unfold remove
  simp only [hresolve, bind, Except.bind, hnode]

/-! ### Files that come and go -/

/-- What a write leaves behind if it may have failed: all files as they were, or some content at
its path. -/
def MayHold (path : Text) (before after : FileTree) : Prop :=
  after.node? = before.node? ∨ ∃ content, Becomes (before.write path content) after

/-- Everything is as it was, but the file at a path may be gone. -/
def LosesAtMost (path : Text) (before after : FileTree) : Prop :=
  ∀ place, after.node? place = before.node? place ∨
    before.resolve path = .ok place ∧ before.node? place ≠ some .directory ∧
      after.node? place = none

/-- A path holds a content, the file at another path is gone, and everything else is as it was. -/
def Receives (path : Text) (content : Bytes) (temporary : Text) (before after : FileTree) :
    Prop :=
  ∃ place place', before.resolve path = .ok place ∧ before.resolve temporary = .ok place' ∧
    before.node? place ≠ some .directory ∧ before.node? place' ≠ some .directory ∧
    ∀ other, after.node? other
      = if other = place then some (.file content)
        else if other = place' then none else before.node? other

/-- A file that may be gone is a change at its path only. No directory comes or goes with it, so
all other paths lead to where they led. -/
theorem LosesAtMost.changesAt {path : Text} (h : LosesAtMost path before after) :
    ChangesAt [path] before after where
  directories place := by
    rcases h place with hsame | ⟨-, hbefore, hafter⟩
    · rw [hsame]
    · refine iff_of_false ?_ hbefore
      rw [hafter]
      simp
  others place hplace := by
    rcases h place with hsame | ⟨hresolve, -, -⟩
    · exact hsame
    · exact absurd hresolve (hplace path List.mem_cons_self)

/-- So is a write that may have failed. -/
theorem MayHold.changesAt {path : Text} (h : MayHold path before after) :
    ChangesAt [path] before after := by
  rcases h with hsame | ⟨content, hwrite⟩
  · exact ⟨fun place => by rw [hsame], fun place _ => by rw [hsame]⟩
  · obtain ⟨place, hresolve, hnode, hafter⟩ := hwrite.node?_write
    exact changesAt_of_node? hresolve hnode (by simp) hafter

/-- And so is a content that came by way of a temporary file, at the two paths. The temporary file
is gone afterwards, and only the other one is new. -/
theorem Receives.changesAt {path temporary : Text} {content : Bytes}
    (h : Receives path content temporary before after) :
    ChangesAt [path, temporary] before after := by
  obtain ⟨place, place', hresolve, hresolve', hnode, hnode', hafter⟩ := h
  constructor
  · intro other
    rw [hafter]
    split
    · rename_i hother
      rw [hother]
      exact iff_of_false (by simp) hnode
    · split
      · rename_i hother
        rw [hother]
        exact iff_of_false (by simp) hnode'
      · rfl
  · intro other hother
    rw [hafter, if_neg, if_neg]
    · rintro rfl
      exact hother temporary (by simp) hresolve'
    · rintro rfl
      exact hother path (by simp) hresolve

/-- The content that a path has received is read from it. Its place is still the place of the
path, since no directory has changed. -/
theorem Receives.read {path temporary : Text} {content : Bytes}
    (h : Receives path content temporary before after) : after.read path = .ok content := by
  have hchanges := h.changesAt
  obtain ⟨place, place', hresolve, -, -, -, hafter⟩ := h
  refine read_eq_ok_iff.mpr ⟨place, (hchanges.resolve_eq_ok_iff path place).mpr hresolve, ?_⟩
  rw [hafter, if_pos rfl]

/-- A file that is written beside its place and then moved there. All that is read at the path at
any time is the old content or the new one as a whole. -/
theorem receives_of_write_rename {path temporary : Text} {content : Bytes}
    (hwrite : Becomes (before.write temporary content) middle)
    (hrename : Becomes (middle.rename temporary path) after) :
    Receives path content temporary before after := by
  have hchanges : ChangesAt [temporary] before middle := MayHold.changesAt (.inr ⟨content, hwrite⟩)
  obtain ⟨place', hresolve', hnode', hmiddle⟩ := hwrite.node?_write
  obtain ⟨source, place, moved, hsource, htarget, hfile, hnode, hafter⟩ := hrename.node?_rename
  -- The move finds what the write has left at the path of the temporary file.
  obtain rfl := Except.ok.inj (((hchanges.resolve_eq_ok_iff _ _).mp hsource).symm.trans hresolve')
  rw [hmiddle, if_pos rfl, Option.some.injEq, FileNode.file.injEq] at hfile
  subst hfile
  refine ⟨place, source, (hchanges.resolve_eq_ok_iff _ _).mp htarget, hresolve',
    fun hdirectory => hnode ((hchanges.directories place).mpr hdirectory), hnode', fun other => ?_⟩
  rw [hafter, hmiddle]
  split
  · rfl
  · split
    · rfl
    · rfl

end FileTree

/-! ### Storages that may fail -/

namespace Storage

open FileTree

variable {σ : Type}

/-- Two computations with a state are run one after the other. -/
theorem run_bind {α β : Type} (first : StateM σ α) (next : α → StateM σ β) (state : σ) :
    (first >>= next).run state = (next (first.run state).1).run (first.run state).2 :=
  rfl

variable [Storage (StateM σ)] {view : σ → FileTree}

/-- What is assumed of a storage that may refuse an operation at any time. Its files are seen
through `view`. -/
structure FailsCleanly (view : σ → FileTree) : Prop where
  /-- A file is written, or the write fails. Then it has changed nothing, or it has left any
  content in the file. -/
  write (state : σ) (path : Text) (content : Bytes) :
    let run := (Storage.write path content : StateM σ _).run state
    run.1 = .ok () ∧ Becomes ((view state).write path content) (view run.2) ∨
      (∃ fault, run.1 = .error fault) ∧ MayHold path (view state) (view run.2)
  /-- A file is moved, or nothing has changed. -/
  rename (state : σ) (source target : Text) :
    let run := (Storage.rename source target : StateM σ _).run state
    run.1 = .ok () ∧ Becomes ((view state).rename source target) (view run.2) ∨
      (∃ fault, run.1 = .error fault) ∧ (view run.2).node? = (view state).node?
  /-- A file is removed, if it is there. Otherwise nothing has changed. -/
  remove (state : σ) (path : Text) :
    let run := (Storage.remove path : StateM σ _).run state
    Becomes ((view state).remove path) (view run.2) ∨
      (∃ fault, (view state).remove path = .error fault) ∧
        (view run.2).node? = (view state).node?

/-- After a write that may have failed, the removal of its file leaves nothing new. What may be
lost is a file that was at the path of the temporary one before. -/
theorem FailsCleanly.losesAtMost_remove (h : FailsCleanly view) {before : FileTree} {path : Text}
    {state : σ} (hstate : MayHold path before (view state)) :
    LosesAtMost path before
      (view ((Storage.remove path : StateM σ _).run state).2) := by
  intro other
  have hchanges := hstate.changesAt
  rcases h.remove state path with hremove | ⟨⟨fault, hremove⟩, hsame⟩
  · obtain ⟨place, hresolve, hnode, hafter⟩ := hremove.node?_remove
    have hresolve' := (hchanges.resolve_eq_ok_iff path place).mp hresolve
    by_cases hother : other = place
    · subst hother
      refine .inr ⟨hresolve', fun hdirectory => ?_, by rw [hafter, if_pos rfl]⟩
      exact hnode ((hchanges.directories other).mpr hdirectory)
    · refine .inl ?_
      rw [hafter, if_neg hother]
      refine hchanges.others other fun path' hpath' hresolve'' => hother ?_
      rw [List.mem_singleton.mp hpath'] at hresolve''
      exact Except.ok.inj (hresolve''.symm.trans hresolve')
  · rcases hstate with hbefore | ⟨content, hwrite⟩
    · exact .inl (by rw [hsame, hbefore])
    · -- The write has left a file, and its removal is not refused.
      obtain ⟨place, hresolve, -, hafter⟩ := hwrite.node?_write
      have hresolve' := (hchanges.resolve_eq_ok_iff path place).mpr hresolve
      rw [remove_of_file hresolve' (by rw [hafter, if_pos rfl])] at hremove
      cases hremove

end Storage

/-! ### File trees -/

namespace FileTree

variable {tree after : FileTree} {change : FileTree → Except StorageFault FileTree}

/-- An attempt that is not refused leaves the changed tree. -/
theorem run_attempt_of_ok (h : change tree = .ok after) :
    (attempt change).run tree = (.ok (), after) := by
  show attempt change tree = _
  unfold attempt
  rw [h]

/-- One that is refused leaves the tree as it was, and says why. -/
theorem run_attempt_of_error {fault : StorageFault} (h : change tree = .error fault) :
    (attempt change).run tree = (.error fault, tree) := by
  show attempt change tree = _
  unfold attempt
  rw [h]

/-- An attempt makes the change, or it changes nothing. These are the two cases that an assumption
on a storage has to be proved in. -/
theorem attempt_cases (change : FileTree → Except StorageFault FileTree) (tree : FileTree) :
    let run := (attempt change).run tree
    run.1 = .ok () ∧ Becomes (change tree) run.2 ∨
      (∃ fault, run.1 = .error fault ∧ change tree = .error fault) ∧ run.2 = tree := by
  cases hchange : change tree with
  | ok after =>
    rw [run_attempt_of_ok hchange]
    exact .inl ⟨rfl, after, rfl, rfl⟩
  | error fault =>
    rw [run_attempt_of_error hchange]
    exact .inr ⟨⟨fault, rfl, rfl⟩, rfl⟩

/-- A file tree fails only before it changes anything. It is the simplest storage of which the
assumptions hold. -/
theorem failsCleanly_fileTree : Storage.FailsCleanly (id : FileTree → FileTree) where
  write tree path content := by
    rcases attempt_cases (fun tree => tree.write path content) tree with
      hwrite | ⟨⟨fault, hfault, -⟩, hsame⟩
    · exact .inl hwrite
    · exact .inr ⟨⟨fault, hfault⟩, .inl (congrArg node? hsame)⟩
  rename tree source target := by
    rcases attempt_cases (fun tree => tree.rename source target) tree with
      hrename | ⟨⟨fault, hfault, -⟩, hsame⟩
    · exact .inl hrename
    · exact .inr ⟨⟨fault, hfault⟩, congrArg node? hsame⟩
  remove tree path := by
    rcases attempt_cases (fun tree => tree.remove path) tree with
      ⟨-, hremove⟩ | ⟨⟨fault, -, hfault⟩, hsame⟩
    · exact .inl hremove
    · exact .inr ⟨⟨fault, hfault⟩, congrArg node? hsame⟩

end FileTree

/-! ### Disks with little room -/

/-- A file tree on a disk where a file has room for some bytes only. -/
structure Disk where
  room : Nat
  tree : FileTree

namespace Disk

/-- The reason to refuse what there is no room for. -/
def full : StorageFault :=
  .other "No space left on device (os error 28)".toList

/-- A computation over the file tree of a disk. -/
def onTree {α : Type} (action : StateM FileTree α) : StateM Disk α := fun disk =>
  ((action.run disk.tree).1, { disk with tree := (action.run disk.tree).2 })

/-- Writes what there is room for, and refuses the write if that is not all. -/
def write (path : Text) (content : Bytes) : StateM Disk (Except StorageFault Unit) := fun disk =>
  let run := (onTree (Storage.write path (content.take disk.room))).run disk
  (if content.length ≤ disk.room then run.1 else run.1.bind fun _ => .error full, run.2)

instance : Storage (StateM Disk) where
  read path := onTree (Storage.read path)
  list path := onTree (Storage.list path)
  write := write
  rename source target := onTree (Storage.rename source target)
  remove path := onTree (Storage.remove path)
  createDirectories path := onTree (Storage.createDirectories path)

/-- A write puts what there is room for into the file tree of the disk. -/
theorem run_write (disk : Disk) (path : Text) (content : Bytes) :
    let part := (Storage.write path (content.take disk.room) : StateM FileTree _).run disk.tree
    (Storage.write path content : StateM Disk _).run disk
      = (if content.length ≤ disk.room then part.1 else part.1.bind fun _ => .error full,
          { disk with tree := part.2 }) :=
  rfl

end Disk

/-- On a disk a write may stop halfway. The part that was written is then at the path of the write
and nowhere else, as the assumptions allow. -/
theorem failsCleanly_disk : Storage.FailsCleanly Disk.tree where
  write disk path content := by
    have hpart := FileTree.failsCleanly_fileTree.write disk.tree path (content.take disk.room)
    simp only [Disk.run_write]
    by_cases hroom : content.length ≤ disk.room
    · rw [if_pos hroom]
      rw [List.take_of_length_le hroom] at hpart ⊢
      exact hpart
    · rw [if_neg hroom]
      -- What fits may be in the file, but the write is refused in any case.
      rcases hpart with ⟨hok, hwrite⟩ | ⟨⟨fault, hfault⟩, hsame⟩
      · rw [hok]
        exact .inr ⟨⟨Disk.full, rfl⟩, .inr ⟨content.take disk.room, hwrite⟩⟩
      · rw [hfault]
        exact .inr ⟨⟨fault, rfl⟩, hsame⟩
  rename disk source target := FileTree.failsCleanly_fileTree.rename disk.tree source target
  remove disk path := FileTree.failsCleanly_fileTree.remove disk.tree path

end TaskGrammar
