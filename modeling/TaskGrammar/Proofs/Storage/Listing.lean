import Mathlib.Data.List.Forall2
import TaskGrammar.Proofs.Storage.Failures
import TaskGrammar.Proofs.Text.Order
import TaskGrammar.Storage.Library

/-!
# `TaskGrammar.Proofs.Storage.Listing`: grammars in whatever order they are listed

A system lists a directory in an order of its own, which may differ from one time to the next. The
loader depends on that order nowhere: it picks the grammar files by their names, sorts these, and
only then opens the files, so also the fault that ends the loading is the same each time. What is
loaded is described first, from the content of the directory alone. The description allows for one
result only, and this is what two runs have in common.

* `Path.splitExtension_eq_some_iff`: which names have an extension.
* `Grammar.ofSource_join`: a file whose name has one gives its grammar the rest of the name.
* `ListsInOrder`: the names of the grammar files in the order of their bytes.
* `Grammar.Loaded`: all grammars, or the first fault. `Loaded.unique` says that there is no choice.
* `SameDirectory`: two states of a storage that list the same directory in different orders.
  `FileTree.sameDirectory_of_perm` finds them among file trees.
* `Grammar.loadAll_of_sameDirectory`: the same result from both, and the one that is described.
-/

set_option autoImplicit false

namespace TaskGrammar

/-! ### Names -/

namespace Path

/-- A name that ends in a dot and an extension, with something in front of the dot. -/
def HasExtension (extension name : Text) : Prop :=
  ∃ stem, stem ≠ [] ∧ name = stem ++ '.' :: extension

instance (extension name : Text) : Decidable (HasExtension extension name) :=
  decidable_of_iff ('.' :: extension <:+ name ∧ name ≠ '.' :: extension) <| by
    constructor
    · rintro ⟨⟨stem, rfl⟩, hne⟩
      refine ⟨stem, fun hstem => hne ?_, rfl⟩
      rw [hstem, List.nil_append]
    · rintro ⟨stem, hstem, rfl⟩
      exact ⟨⟨stem, rfl⟩, fun heq => hstem (List.append_left_eq_self.mp heq)⟩

/-- A name with something in front of its last dot is cut there. A name that starts with its only
dot has no extension, which is what the hypothesis on the stem keeps out. -/
theorem splitExtension_append {stem extension : Text} (hstem : stem ≠ []) (hdot : '.' ∉ extension) :
    splitExtension (stem ++ '.' :: extension) = (stem, some extension) := by
  have hall : extension.reverse.all (fun c => c != '.') = true := by
    rw [List.all_eq_true]
    intro c hc
    rw [bne_iff_ne]
    rintro rfl
    exact hdot (List.mem_reverse.mp hc)
  obtain ⟨htake, hdrop⟩ := Text.takeWhile_append_cons (c := '.') stem.reverse hall rfl
  have hreverse : (stem ++ '.' :: extension).reverse
      = extension.reverse ++ '.' :: stem.reverse := by simp
  have hback : stem = stem.reverse.reverse := (List.reverse_reverse stem).symm
  rw [splitExtension, hreverse, hdrop, htake, List.reverse_reverse]
  cases hcases : stem.reverse with
  | nil => exact absurd (List.reverse_eq_nil_iff.mp hcases) hstem
  | cons c rest => rw [hback, hcases]

/-- The extension of a name is what follows the last dot, unless the name starts with this dot. So
a name is looked at from its end, and nothing in front of the last dot plays a part. -/
theorem splitExtension_eq_some_iff {name extension : Text} :
    (splitExtension name).2 = some extension ↔
      '.' ∉ extension ∧ HasExtension extension name := by
  constructor
  · intro h
    -- Seen from its end, a name is its extension, the dot, and the rest.
    have hcut := List.takeWhile_append_dropWhile (p := fun c => c != '.') (l := name.reverse)
    have hdot : '.' ∉ name.reverse.takeWhile fun c => c != '.' := fun hmem => by
      simpa using List.all_eq_true.mp (List.all_takeWhile) _ hmem
    unfold splitExtension at h
    split at h
    · cases h
    · cases h
    · rename_i mark stem hstem hrest
      obtain rfl := Option.some.inj h
      have hmark : mark = '.' := by
        have hhead := List.head?_dropWhile_not (fun c => c != '.') name.reverse
        rw [hrest] at hhead
        simpa using hhead
      rw [hrest, hmark] at hcut
      refine ⟨fun hmem => hdot (List.mem_reverse.mp hmem), stem.reverse, ?_, ?_⟩
      · exact fun hnil => hstem (List.reverse_eq_nil_iff.mp hnil)
      · have hname := congrArg List.reverse hcut
        rw [List.reverse_append, List.reverse_cons, List.reverse_reverse, List.append_assoc,
          List.singleton_append] at hname
        exact hname.symm
  · rintro ⟨hdot, stem, hstem, rfl⟩
    rw [splitExtension_append hstem hdot]

/-- A path to a name in a directory ends in this name. -/
theorem fileName?_join (directory : Text) {name : Text} (h : FileTree.IsName name) :
    fileName? (join directory name) = some name := by
  obtain ⟨parts, hparts, -⟩ := FileTree.exists_splitOn_join directory h.slash
  have hkept : [name].filter (fun part => part ≠ [] ∧ part ≠ ['.']) = [name] := by
    simp [h.ne_nil, h.ne_dot]
  have hname : name ≠ ['.', '.'] := h.ne_outward
  rw [fileName?, hparts, List.filter_append, hkept, List.getLast?_append_of_ne_nil _ (by simp)]
  simp [hname]

end Path

/-- The names of the grammar files among some entries, in the order of their bytes. -/
structure ListsInOrder (entries : List DirectoryEntry) (names : List Text) : Prop where
  /-- Each file with the extension is there, and nothing else is. -/
  perm : names.Perm ((entries.filter fun entry =>
    entry.isFile ∧ Path.HasExtension "txt".toList entry.name).map DirectoryEntry.name)
  /-- They are in order. -/
  sorted : names.Pairwise fun name other => Text.encode name ≤ Text.encode other

/-- The loader looks for the names that have the extension. -/
theorem DirectoryEntry.isGrammar_iff (entry : DirectoryEntry) :
    entry.isGrammar = true ↔ entry.isFile ∧ Path.HasExtension "txt".toList entry.name := by
  have hdot : '.' ∉ "txt".toList := by decide
  rw [isGrammar, Bool.and_eq_true, beq_iff_eq, Path.splitExtension_eq_some_iff]
  exact and_congr_right fun _ => and_iff_right hdot

/-- The loader finds the grammar files in order. It filters and sorts, and both are told by
membership and order. -/
theorem listsInOrder_grammarNames (entries : List DirectoryEntry) :
    ListsInOrder entries (grammarNames entries) where
  perm := by
    have hfilter : entries.filter DirectoryEntry.isGrammar
        = entries.filter fun entry =>
            entry.isFile ∧ Path.HasExtension "txt".toList entry.name := by
      refine List.filter_congr fun entry _ => ?_
      rw [Bool.eq_iff_iff, DirectoryEntry.isGrammar_iff, decide_eq_true_eq]
    rw [← hfilter]
    exact List.mergeSort_perm _ Text.le
  sorted := Text.pairwise_mergeSort _

/-- Entries in another order have the same files, and these have one order. -/
theorem ListsInOrder.unique {entries others : List DirectoryEntry} (hperm : entries.Perm others)
    {names names' : List Text} (h : ListsInOrder entries names) (h' : ListsInOrder others names') :
    names = names' :=
  Text.eq_of_perm (h.perm.trans (((hperm.filter _).map _).trans h'.perm.symm)) h.sorted h'.sorted

/-! ### Files -/

namespace Grammar

/-- A file whose name has an extension is not refused for its name. Its grammar takes what is in
front of the extension. -/
theorem ofSource_join (directory source : Text) {stem extension : Text} (hstem : stem ≠ [])
    (hdot : '.' ∉ extension) (hname : FileTree.IsName (stem ++ '.' :: extension)) :
    ofSource (Path.join directory (stem ++ '.' :: extension)) source = parse stem source := by
  rw [ofSource, Path.stem?, Path.fileName?_join directory hname, Option.map_some,
    Path.splitExtension_append hstem hdot]

/-- A path that leads out of a directory names no file. -/
example : ofSource "grammars/..".toList [] = .error (.invalidFileName "grammars/..".toList) := by
  decide

/-- The grammar that a file with some content has. -/
def ofContent (path : Text) : Except StorageFault Bytes → Except Fault Grammar
  | .error fault => .error (.storage fault)
  | .ok content =>
    match Text.decode? content with
    | none => .error (.storage .invalidEncoding)
    | some source => ofSource path source

/-- What comes of some files that are loaded one after the other. -/
inductive Loaded (file : Text → Except Fault Grammar) :
    List Text → Except Fault (List Grammar) → Prop
  /-- All are grammars, and each is there once, in the order of the files. -/
  | all {names : List Text} {grammars : List Grammar}
      (h : List.Forall₂ (fun name grammar => file name = .ok grammar) names grammars) :
      Loaded file names (.ok grammars)
  /-- One is not, and all before it are. Its fault is reported, and no grammar is. -/
  | failed {before after : List Text} {name : Text} {fault : Fault}
      (hbefore : ∀ earlier ∈ before, ∃ grammar, file earlier = .ok grammar)
      (hname : file name = .error fault) :
      Loaded file (before ++ name :: after) (.error fault)

namespace Loaded

variable {file : Text → Except Fault Grammar} {names : List Text}
  {result other : Except Fault (List Grammar)}

/-- A first file that is a grammar is put in front, if there is something to put it in front of. A
fault of a later file stays the result. -/
theorem cons {name : Text} {grammar : Grammar} (hname : file name = .ok grammar)
    (h : Loaded file names result) : Loaded file (name :: names) (result.map (grammar :: ·)) := by
  cases h with
  | all h => exact .all (.cons hname h)
  | @failed before after failing fault hbefore hfault =>
    show Loaded file ((name :: before) ++ failing :: after) (.error fault)
    refine .failed (fun earlier hmem => ?_) hfault
    rcases List.mem_cons.mp hmem with rfl | hmem
    · exact ⟨grammar, hname⟩
    · exact hbefore earlier hmem

/-- After a first file that is no grammar, nothing is looked at. -/
theorem of_error {name : Text} {fault : Fault} (hname : file name = .error fault) :
    Loaded file (name :: names) (.error fault) := by
  show Loaded file ([] ++ name :: names) (.error fault)
  exact .failed (fun _ hmem => absurd hmem List.not_mem_nil) hname

/-- No files are loaded as no grammars, and nothing can fail. -/
theorem eq_of_nil (h : Loaded file [] result) : result = .ok [] := by
  generalize hnames : ([] : List Text) = names at h
  cases h with
  | all h =>
    subst hnames
    rw [List.forall₂_nil_left_iff.mp h]
  | failed => exact absurd hnames.symm (by simp)

/-- The first file decides whether another one is looked at. There is nothing to be loaded from
the others if it is no grammar. -/
theorem eq_of_cons {name : Text} (h : Loaded file (name :: names) result) :
    (∃ grammar rest, file name = .ok grammar ∧ Loaded file names rest ∧
        result = rest.map (grammar :: ·)) ∨
      ∃ fault, file name = .error fault ∧ result = .error fault := by
  generalize hall : name :: names = all at h
  cases h with
  | all h =>
    subst hall
    obtain ⟨grammar, grammars, hname, hrest, rfl⟩ := List.forall₂_cons_left_iff.mp h
    exact .inl ⟨grammar, .ok grammars, hname, .all hrest, rfl⟩
  | @failed before after failing fault hbefore hfault =>
    cases before with
    | nil =>
      obtain ⟨rfl, -⟩ := List.cons.inj hall
      exact .inr ⟨fault, hfault, rfl⟩
    | cons first before =>
      obtain ⟨rfl, rfl⟩ := List.cons.inj hall
      obtain ⟨grammar, hname⟩ := hbefore name List.mem_cons_self
      refine .inl ⟨grammar, .error fault, hname, .failed (fun earlier hmem => ?_) hfault, rfl⟩
      exact hbefore earlier (List.mem_cons_of_mem _ hmem)

/-- Only one thing can come of a list of files. The induction is on the list, and its first file
decides which of the two cases there is. -/
theorem unique (h : Loaded file names result) (h' : Loaded file names other) : result = other := by
  induction names generalizing result other with
  | nil => rw [h.eq_of_nil, h'.eq_of_nil]
  | cons name names ih =>
    rcases h.eq_of_cons with ⟨grammar, rest, hname, hrest, rfl⟩ | ⟨fault, hname, rfl⟩
    · rcases h'.eq_of_cons with ⟨grammar', rest', hname', hrest', rfl⟩ | ⟨fault, hname', -⟩
      · obtain rfl := Except.ok.inj (hname.symm.trans hname')
        rw [ih hrest hrest']
      · cases hname.symm.trans hname'
    · rcases h'.eq_of_cons with ⟨grammar, rest, hname', -, -⟩ | ⟨fault', hname', rfl⟩
      · cases hname.symm.trans hname'
      · exact congrArg Except.error (Except.error.inj (hname.symm.trans hname'))

/-- It depends on nothing but these files. So it is the same in two directories that have them
with the same content. -/
theorem congr {file' : Text → Except Fault Grammar}
    (hfile : ∀ name ∈ names, file name = file' name) (h : Loaded file names result) :
    Loaded file' names result := by
  induction names generalizing result with
  | nil =>
    rw [h.eq_of_nil]
    exact .all .nil
  | cons name names ih =>
    have hrest := fun other hmem => hfile other (List.mem_cons_of_mem name hmem)
    rcases h.eq_of_cons with ⟨grammar, rest, hname, hloaded, rfl⟩ | ⟨fault, hname, rfl⟩
    · exact (ih hrest hloaded).cons ((hfile name List.mem_cons_self).symm.trans hname)
    · exact .of_error ((hfile name List.mem_cons_self).symm.trans hname)

end Loaded

end Grammar

/-! ### Runs -/

namespace Storage

variable {σ : Type} [Storage (StateM σ)]

/-- What reading a file gives. -/
def content (files : σ) (path : Text) : Except StorageFault Bytes :=
  ((Storage.read path : StateM σ _).run files).1

/-- What listing a directory gives. -/
def entries (files : σ) (directory : Text) : Except StorageFault (List DirectoryEntry) :=
  ((Storage.list directory : StateM σ _).run files).1

/-- What is assumed of a storage: files are not changed when they are looked at. -/
structure KeepsFiles (σ : Type) [Storage (StateM σ)] : Prop where
  /-- A file is read. -/
  read (files : σ) (path : Text) : ((Storage.read path : StateM σ _).run files).2 = files
  /-- A directory is listed. -/
  list (files : σ) (directory : Text) :
    ((Storage.list directory : StateM σ _).run files).2 = files

/-- Reading a file leaves the storage as it is, and gives what is in it. -/
theorem KeepsFiles.run_read (h : KeepsFiles σ) (files : σ) (path : Text) :
    (Storage.read path : StateM σ _).run files = (content files path, files) :=
  Prod.ext rfl (h.read files path)

/-- So does listing a directory. -/
theorem KeepsFiles.run_list (h : KeepsFiles σ) (files : σ) (directory : Text) :
    (Storage.list directory : StateM σ _).run files = (entries files directory, files) :=
  Prod.ext rfl (h.list files directory)

/-- A directory has the same content in two states of a storage, which may list it in different
orders. -/
inductive SameDirectory (directory : Text) (files others : σ) : Prop
  /-- It is not listed, for the same reason. -/
  | refused {fault : StorageFault} (hfiles : entries files directory = .error fault)
      (hothers : entries others directory = .error fault)
  /-- It has the same entries, with the same in them where they are files. -/
  | listed {listed relisted : List DirectoryEntry} (hfiles : entries files directory = .ok listed)
      (hothers : entries others directory = .ok relisted) (hperm : listed.Perm relisted)
      (hcontent : ∀ entry ∈ listed, entry.isFile →
        content files (Path.join directory entry.name)
          = content others (Path.join directory entry.name))

end Storage

namespace Grammar

open Storage

variable {σ : Type} [Storage (StateM σ)]

/-- The grammar in a file of a directory. -/
def ofFile (directory : Text) (files : σ) (name : Text) : Except Fault Grammar :=
  ofContent (Path.join directory name) (content files (Path.join directory name))

/-- To load a grammar is to read its file and to make a grammar of what is in it. What the storage
is like does not show, since reading leaves it as it is. -/
theorem run_load (h : KeepsFiles σ) (files : σ) (path : Text) :
    (load path : StateM σ _).run files = (ofContent path (content files path), files) := by
  unfold load readText
  simp only [Storage.run_bind, h.run_read]
  cases content files path with
  | error fault => rfl
  | ok bytes =>
    unfold ofContent
    simp only
    cases Text.decode? bytes with
    | none => rfl
    | some source => rfl

/-- Files are loaded up to the first one that is no grammar. The induction is on their names, with
the first file in front of what is loaded from the others. -/
theorem run_loadEach (h : KeepsFiles σ) (files : σ) (directory : Text) (names : List Text) :
    ∃ result,
      (loadEach (names.map (Path.join directory)) : StateM σ _).run files = (result, files) ∧
      Loaded (ofFile directory files) names result := by
  induction names with
  | nil => exact ⟨.ok [], rfl, .all .nil⟩
  | cons name names ih =>
    obtain ⟨result, hrun, hloaded⟩ := ih
    have hload : (load (Path.join directory name) : StateM σ _).run files
        = (ofFile directory files name, files) := run_load h files _
    rw [List.map_cons, loadEach]
    simp only [Storage.run_bind, hload]
    cases hname : ofFile directory files name with
    | error fault => exact ⟨.error fault, rfl, .of_error hname⟩
    | ok grammar =>
      refine ⟨result.map (grammar :: ·), ?_, hloaded.cons hname⟩
      simp only [Storage.run_bind, hrun]
      cases result <;> rfl

/-- What comes of a directory, from what is in it. -/
inductive LoadedFrom (directory : Text) (files : σ) : Except Fault (List Grammar) → Prop
  /-- It cannot be listed. -/
  | refused {fault : StorageFault} (h : entries files directory = .error fault) :
      LoadedFrom directory files (.error (.storage fault))
  /-- The grammar files in it are loaded one after the other. -/
  | listed {listing : List DirectoryEntry} {names : List Text}
      {result : Except Fault (List Grammar)} (h : entries files directory = .ok listing)
      (hnames : ListsInOrder listing names)
      (hloaded : Loaded (ofFile directory files) names result) :
      LoadedFrom directory files result

/-- What the loader returns is what there is to be loaded. The directory may also be one that
cannot be listed, and this is the first of the two cases. -/
theorem run_loadAll (h : KeepsFiles σ) (directory : Text) (files : σ) :
    ∃ result, (loadAll directory : StateM σ _).run files = (result, files) ∧
      LoadedFrom directory files result := by
  unfold loadAll
  simp only [Storage.run_bind, h.run_list]
  cases hlist : entries files directory with
  | error fault => exact ⟨_, rfl, .refused hlist⟩
  | ok listing =>
    obtain ⟨result, hrun, hloaded⟩ := run_loadEach h files directory (grammarNames listing)
    exact ⟨result, hrun, .listed hlist (listsInOrder_grammarNames listing) hloaded⟩

/-- The order of a listing does not show in what there is to be loaded. Names of grammar files are
sorted, and two sorted lists of the same names are the same. -/
theorem LoadedFrom.unique {directory : Text} {files others : σ}
    (hsame : SameDirectory directory files others) {result other : Except Fault (List Grammar)}
    (h : LoadedFrom directory files result) (h' : LoadedFrom directory others other) :
    result = other := by
  -- Both descriptions start from the listing that is the same for both, up to the order.
  cases hsame with
  | refused hfiles hothers =>
    cases h with
    | listed hlist => cases hfiles.symm.trans hlist
    | refused hlist =>
      cases h' with
      | listed hlist' => cases hothers.symm.trans hlist'
      | refused hlist' =>
        cases hfiles.symm.trans hlist
        cases hothers.symm.trans hlist'
        rfl
  | listed hfiles hothers hperm hcontent =>
    cases h with
    | refused hlist => cases hfiles.symm.trans hlist
    | listed hlist hnames hloaded =>
      cases h' with
      | refused hlist' => cases hothers.symm.trans hlist'
      | listed hlist' hnames' hloaded' =>
        obtain rfl := Except.ok.inj (hfiles.symm.trans hlist)
        obtain rfl := Except.ok.inj (hothers.symm.trans hlist')
        obtain rfl := hnames.unique hperm hnames'
        refine (hloaded.congr fun name hmem => ?_).unique hloaded'
        -- A name that is loaded is the name of a listed file.
        obtain ⟨entry, hentry, rfl⟩ := List.mem_map.mp (hnames.perm.mem_iff.mp hmem)
        obtain ⟨hlisted, hgrammar⟩ := List.mem_filter.mp hentry
        rw [ofFile, ofFile, hcontent entry hlisted (of_decide_eq_true hgrammar).1]

/-- Two runs on the same directory, listed in any two orders, load the same. Each of them returns
what there is to be loaded, and this is one thing for both. -/
theorem loadAll_of_sameDirectory (h : KeepsFiles σ) {directory : Text} {files others : σ}
    (hsame : SameDirectory directory files others) :
    ∃ result,
      (loadAll directory : StateM σ _).run files = (result, files) ∧
      (loadAll directory : StateM σ _).run others = (result, others) ∧
      LoadedFrom directory files result := by
  obtain ⟨result, hrun, hloaded⟩ := run_loadAll h directory files
  obtain ⟨result', hrun', hloaded'⟩ := run_loadAll h directory others
  obtain rfl := hloaded.unique hsame hloaded'
  exact ⟨result, hrun, hrun', hloaded⟩

end Grammar

/-! ### File trees -/

namespace FileTree

variable {tree other : FileTree}

/-- A tree keeps its files when they are looked at. -/
theorem keepsFiles : Storage.KeepsFiles FileTree where
  read _ _ := rfl
  list _ _ := rfl

/-- In a list without two entries for a place, the place is found wherever its entry is. The
induction is on the permutation; that no place comes twice goes over to each step of it. -/
theorem lookup_eq_of_perm {nodes others : List (Place × FileNode)} (h : nodes.Perm others)
    (hdistinct : (nodes.map Prod.fst).Nodup) (place : Place) :
    nodes.lookup place = others.lookup place := by
  induction h with
  | nil => rfl
  | cons entry _ ih =>
    obtain ⟨first, node⟩ := entry
    rw [List.lookup_cons, List.lookup_cons, ih (List.nodup_cons.mp hdistinct).2]
  | swap entry entry' rest =>
    obtain ⟨first, node⟩ := entry
    obtain ⟨second, node'⟩ := entry'
    -- Of the two entries at most one is for the place.
    have hne : second ≠ first := by
      rintro rfl
      simp at hdistinct
    by_cases hfirst : place = first
    · have hsecond : (place == second) = false := by
        rw [beq_eq_false_iff_ne, hfirst]
        exact hne.symm
      rw [List.lookup_cons, hsecond, hfirst, List.lookup_cons_self, List.lookup_cons_self]
    · have hfirst : (place == first) = false := beq_eq_false_iff_ne.mpr hfirst
      simp only [List.lookup_cons, hfirst]
  | trans hfirst _ ih ih' => rw [ih hdistinct, ih' ((hfirst.map _).nodup_iff.mp hdistinct)]

/-- Paths are followed by what is at each place. -/
theorem walk_eq_of_node? (h : tree.node? = other.node?) (place : Place) (parts : List Text) :
    tree.walk place parts = other.walk place parts := by
  induction parts generalizing place with
  | nil => rfl
  | cons part rest ih => rw [walk, walk, h, ih, ih, ih]

/-- So a path leads to the same place in trees with the same nodes. -/
theorem resolve_eq_of_node? (h : tree.node? = other.node?) (path : Text) :
    tree.resolve path = other.resolve path := by
  unfold resolve
  rw [walk_eq_of_node? h]

/-- And it has the same content there. -/
theorem read_eq_of_node? (h : tree.node? = other.node?) (path : Text) :
    tree.read path = other.read path := by
  unfold read
  rw [resolve_eq_of_node? h, h]

/-- The directory that a path leads to. -/
def directoryAt (tree : FileTree) (path : Text) : Except StorageFault Place := do
  let place ← tree.resolve path
  match tree.node? place with
  | none => .error .notFound
  | some (.file _) => .error .notADirectory
  | some .directory => .ok place

/-- The entries directly below a place, to which a path leads. -/
def entriesAt (tree : FileTree) (path : Text) (place : Place) : List DirectoryEntry :=
  tree.nodes.filterMap fun entry =>
    (childName? place entry.1).map fun name =>
      { name := name, isFile := tree.isFile (Path.join path name) }

/-- A listing is made in two steps: where the directory is, and what is directly below it. The
order of the entries is that of the tree. -/
theorem list_eq (tree : FileTree) (path : Text) :
    tree.list path = (tree.directoryAt path).map (tree.entriesAt path) := by
  unfold list directoryAt
  cases tree.resolve path with
  | error fault => rfl
  | ok place =>
    simp only [bind, Except.bind]
    cases tree.node? place with
    | none => rfl
    | some node => cases node <;> rfl

/-- Trees that hold the same at each place, but not in the same order, list a directory in
different orders. -/
theorem sameDirectory_of_perm (hperm : tree.nodes.Perm other.nodes)
    (hdistinct : (tree.nodes.map Prod.fst).Nodup) (directory : Text) :
    Storage.SameDirectory directory tree other := by
  have hnode : tree.node? = other.node? := by
    funext place
    rw [node?, node?, lookup_eq_of_perm hperm hdistinct]
  have hread := read_eq_of_node? hnode
  have hfile : tree.isFile = other.isFile := by
    funext path
    rw [isFile, isFile, hread]
  have hdirectory : tree.directoryAt directory = other.directoryAt directory := by
    rw [directoryAt, directoryAt, resolve_eq_of_node? hnode, hnode]
  cases hplace : other.directoryAt directory with
  | error fault =>
    have htree : tree.list directory = .error fault := by
      rw [list_eq, hdirectory, hplace]
      rfl
    have hother : other.list directory = .error fault := by
      rw [list_eq, hplace]
      rfl
    exact .refused htree hother
  | ok place =>
    have hentries : (tree.entriesAt directory place).Perm (other.entriesAt directory place) := by
      rw [entriesAt, entriesAt, hfile]
      exact hperm.filterMap _
    have htree : tree.list directory = .ok (tree.entriesAt directory place) := by
      rw [list_eq, hdirectory, hplace]
      rfl
    have hother : other.list directory = .ok (other.entriesAt directory place) := by
      rw [list_eq, hplace]
      rfl
    exact .listed htree hother hentries fun _ _ _ => hread _

end FileTree

namespace Grammar

/-- A directory with two grammars that cannot be loaded, one that can, and more that is none: a file
without a name in front of the dot, one with another extension, and a directory. -/
def shelf : FileTree where
  nodes :=
    [([['g']], .directory),
      ([['g'], "ü.txt".toList], .file [0xff]),
      ([['g'], "z.txt".toList], .file (Text.encode "= hello".toList)),
      ([['g'], "notes.md".toList], .file []),
      ([['g'], ".txt".toList], .file [0xff]),
      ([['g'], "a.b.txt".toList], .file (Text.encode "$Main = hello".toList)),
      ([['g'], "x.txt".toList], .directory)]

/-- The same directory, listed from the end. -/
def turnedShelf : FileTree where
  nodes := shelf.nodes.reverse

/-- The names are in order, and the first file that cannot be loaded is the second one. The third
one would fail as well, with another fault. -/
theorem loadedFrom_shelf : LoadedFrom ['g'] shelf (.error (.malformedLine 1)) := by
  have hentries : Storage.entries shelf ['g'] = .ok [⟨"ü.txt".toList, true⟩,
      ⟨"z.txt".toList, true⟩, ⟨"notes.md".toList, true⟩, ⟨".txt".toList, true⟩,
      ⟨"a.b.txt".toList, true⟩, ⟨"x.txt".toList, false⟩] := by decide +kernel
  have hfirst : ∃ grammar, ofFile ['g'] shelf "a.b.txt".toList = .ok grammar := ⟨_, rfl⟩
  have hsecond : ofFile ['g'] shelf "z.txt".toList = .error (.malformedLine 1) := rfl
  have hloaded : Loaded (ofFile ['g'] shelf)
      (["a.b.txt".toList] ++ "z.txt".toList :: ["ü.txt".toList]) (.error (.malformedLine 1)) :=
    .failed (List.forall_mem_singleton.mpr hfirst) hsecond
  exact .listed hentries ⟨by decide +kernel, by decide +kernel⟩ hloaded

/-- Listed in two orders, the directory fails at the same file. -/
theorem loadAll_of_sameDirectory_shelf :
    Storage.KeepsFiles FileTree ∧ Storage.SameDirectory ['g'] shelf turnedShelf ∧
      Storage.entries shelf ['g'] ≠ Storage.entries turnedShelf ['g'] ∧
      (loadAll ['g'] : StateM FileTree _).run shelf = (.error (.malformedLine 1), shelf) ∧
      (loadAll ['g'] : StateM FileTree _).run turnedShelf
        = (.error (.malformedLine 1), turnedShelf) := by
  have hdistinct : (shelf.nodes.map Prod.fst).Nodup := by decide +kernel
  have hsame : Storage.SameDirectory ['g'] shelf turnedShelf :=
    FileTree.sameDirectory_of_perm shelf.nodes.reverse_perm.symm hdistinct ['g']
  obtain ⟨result, hrun, hrun', hloaded⟩ := loadAll_of_sameDirectory FileTree.keepsFiles hsame
  have hself := FileTree.sameDirectory_of_perm (List.Perm.refl shelf.nodes) hdistinct ['g']
  obtain rfl := hloaded.unique hself loadedFrom_shelf
  exact ⟨FileTree.keepsFiles, hsame, by decide +kernel, hrun, hrun'⟩

end Grammar

end TaskGrammar
