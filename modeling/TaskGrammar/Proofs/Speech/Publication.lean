import TaskGrammar.Grammar.Source
import TaskGrammar.Proofs.Storage.Failures
import TaskGrammar.Speech.Publication

/-!
# `TaskGrammar.Proofs.Speech.Publication`: what is left of a batch of documents

The documents of a batch share a directory, and each of them goes there through a temporary file
of its own. Names that are no components of a path are refused, so two files of a batch are the
same only if both are documents of grammars with one name, or temporary files of such. That case
is not refused: the document that is published last replaces the others, which were reported as
published too. The theorems:

* `publish_cases`: a publication puts the content to its path, or it changes nothing but its
  temporary file. This holds for every storage that fails cleanly.
* `writeDocument_cases`: so does the publication of a document.
* `writeDocuments_keeps_iff`: each document that is reported is there in the end exactly if the
  grammars of one name have the same document. A refused entry changes no document.
* `writeDocuments_loses_document`: two grammar files may give their grammars one name.
-/

set_option autoImplicit false

namespace TaskGrammar

namespace Speech

open FileTree Storage

/-! ### One document -/

/-- The path of the temporary file. -/
def temporaryPath (path : Text) : Text :=
  path ++ ".tmp".toList

section

variable {σ : Type} [Storage (StateM σ)] {view : σ → FileTree}

/-- A publication puts the content to its path, and its temporary file is gone. Or it is refused,
and all that may be different is that the temporary file is gone. -/
theorem publish_cases (h : FailsCleanly view) (path : Text) (content : Bytes) (state : σ) :
    let run := (publish path content : StateM σ _).run state
    run.1 = .ok () ∧ Receives path content (temporaryPath path) (view state) (view run.2) ∨
      (∃ fault, run.1 = .error fault) ∧
        LosesAtMost (temporaryPath path) (view state) (view run.2) := by
  unfold publish temporaryPath
  dsimp only
  generalize path ++ ".tmp".toList = temporary
  rw [run_bind]
  rcases h.write state temporary content with ⟨hok, hwrite⟩ | ⟨⟨fault, hfault⟩, hleft⟩
  · rw [hok]
    dsimp only
    rw [run_bind]
    rcases h.rename ((Storage.write temporary content : StateM σ _).run state).2 temporary path with
      ⟨hok', hrename⟩ | ⟨⟨fault, hfault⟩, hsame⟩
    · rw [hok']
      exact .inl ⟨rfl, receives_of_write_rename hwrite hrename⟩
    · rw [hfault]
      -- The content is in the temporary file, which is cleared away.
      obtain ⟨tree, htree, hnodes⟩ := hwrite
      refine .inr ⟨⟨fault, rfl⟩, h.losesAtMost_remove (.inr ⟨content, tree, htree, ?_⟩)⟩
      rw [hsame, hnodes]
  · rw [hfault]
    exact .inr ⟨⟨fault, rfl⟩, h.losesAtMost_remove hleft⟩

end

/-- The path of the document of a name. -/
def documentPath (directory name : Text) : Text :=
  Path.join directory (name ++ ".xml".toList)

/-- The temporary file of a document stands beside it, under a name of its own. -/
theorem temporaryPath_documentPath (directory name : Text) :
    temporaryPath (documentPath directory name)
      = Path.join directory (name ++ ".xml.tmp".toList) := by
  have hsuffix : name ++ ".xml.tmp".toList = (name ++ ".xml".toList) ++ ".tmp".toList := by
    rw [List.append_assoc]
    rfl
  rw [hsuffix]
  unfold temporaryPath documentPath Path.join
  split <;> simp only [List.append_assoc]

/-- What is long enough and has no slash is a name. The shorter ones are those that stand for a
directory around, and the empty one. -/
theorem isName_append {name suffix : Text} (hname : '/' ∉ name) (hsuffix : '/' ∉ suffix)
    (hlength : 2 < suffix.length) : IsName (name ++ suffix) := by
  have hlong : 2 < (name ++ suffix).length := by
    rw [List.length_append]
    omega
  refine ⟨?_, ?_, ?_, fun hmem => (List.mem_append.mp hmem).elim hname hsuffix⟩
  all_goals
    intro h
    rw [h] at hlong
    revert hlong
    decide

/-- The name of a file does not lead out of its directory. -/
theorem slash_notMem_of_isFileName {name : Text} (h : isFileName name = true) : '/' ∉ name :=
  (of_decide_eq_true h).2.2.2.1

/-- The name of a document is one entry of the directory. -/
theorem isName_document {name : Text} (h : isFileName name = true) :
    IsName (name ++ ".xml".toList) :=
  isName_append (slash_notMem_of_isFileName h) (by decide) (by decide)

/-- So is that of its temporary file. -/
theorem isName_temporary {name : Text} (h : isFileName name = true) :
    IsName (name ++ ".xml.tmp".toList) :=
  isName_append (slash_notMem_of_isFileName h) (by decide) (by decide)

/-- No document has the name of a temporary file: their last characters are others. -/
theorem document_ne_temporary (name other : Text) :
    name ++ ".xml".toList ≠ other ++ ".xml.tmp".toList := by
  intro h
  have hlast := congrArg List.getLast? h
  rw [List.getLast?_append, List.getLast?_append] at hlast
  have hletter : some 'l' = some 'p' := hlast
  revert hletter
  decide

variable {directory : Text} {tree : FileTree}

/-- A temporary file is at the place of no document, not even of that of its own name. -/
theorem resolve_temporaryPath_ne {name other : Text} (hname : isFileName name = true)
    (hother : isFileName other = true) {place : Place}
    (hresolve : tree.resolve (documentPath directory other) = .ok place) :
    tree.resolve (temporaryPath (documentPath directory name)) ≠ .ok place := by
  rw [temporaryPath_documentPath]
  exact resolve_join_ne (isName_document hother) (isName_temporary hname)
    (document_ne_temporary other name) hresolve

/-- Documents of different names are at different places. -/
theorem resolve_documentPath_ne {name other : Text} (hname : isFileName name = true)
    (hother : isFileName other = true) (hne : other ≠ name) {place : Place}
    (hresolve : tree.resolve (documentPath directory other) = .ok place) :
    tree.resolve (documentPath directory name) ≠ .ok place := by
  refine resolve_join_ne (isName_document hother) (isName_document hname) ?_ hresolve
  exact fun hsame => hne (List.append_cancel_right hsame)

variable {grammar : Grammar} {entities : Entities}

/-- A document is published at its path, or it is refused. A refusal comes before anything is
written, or only the temporary file may be gone after it. -/
theorem writeDocument_cases {σ : Type} [Storage (StateM σ)] {view : σ → FileTree}
    (h : FailsCleanly view) (grammar : Grammar) (entities : Entities) (directory : Text)
    (state : σ) :
    let run := (writeDocument grammar entities directory : StateM σ _).run state
    let path := documentPath directory grammar.name
    (isFileName grammar.name = true ∧ run.1 = .ok path ∧
      ∃ document, convert grammar entities = .ok document ∧
        Receives path (Text.encode document) (temporaryPath path) (view state) (view run.2)) ∨
    (∃ fault, run.1 = .error fault) ∧
      (run.2 = state ∨ isFileName grammar.name = true ∧
        LosesAtMost (temporaryPath path) (view state) (view run.2)) := by
  unfold writeDocument documentFileName
  by_cases hname : isFileName grammar.name = true
  · rw [if_pos hname]
    cases hconvert : convert grammar entities with
    | error fault => exact .inr ⟨⟨fault, rfl⟩, .inl rfl⟩
    | ok document =>
      dsimp only
      rw [run_bind]
      rcases publish_cases h (documentPath directory grammar.name) (Text.encode document) state with
        ⟨hok, hreceives⟩ | ⟨⟨fault, hfault⟩, hloses⟩
      · rw [documentPath] at hok
        rw [hok]
        exact .inl ⟨hname, rfl, document, rfl, hreceives⟩
      · rw [documentPath] at hfault
        rw [hfault]
        exact .inr ⟨⟨_, rfl⟩, .inr ⟨hname, hloses⟩⟩
  · rw [if_neg hname]
    exact .inr ⟨⟨_, rfl⟩, .inl rfl⟩

/-- A document that is reported is at the path of its name, and no document of another name is
different from before. Two files are touched, the document and its temporary file, and neither is
one of another name. -/
theorem writeDocument_published {path : Text}
    (h : ((writeDocument grammar entities directory : StateM FileTree _).run tree).1 = .ok path) :
    path = documentPath directory grammar.name ∧
      (∃ document, convert grammar entities = .ok document ∧
        ((writeDocument grammar entities directory : StateM FileTree _).run tree).2.read path
          = .ok (Text.encode document)) ∧
      isFileName grammar.name = true ∧
      ∀ other, isFileName other = true → other ≠ grammar.name → ∀ content,
        ((writeDocument grammar entities directory : StateM FileTree _).run tree).2.read
            (documentPath directory other) = .ok content ↔
          tree.read (documentPath directory other) = .ok content := by
  rcases writeDocument_cases failsCleanly_fileTree grammar entities directory tree with
    ⟨hname, hok, document, hconvert, hreceives⟩ | ⟨⟨fault, hfault⟩, -⟩
  · obtain rfl := Except.ok.inj (h.symm.trans hok)
    refine ⟨rfl, ⟨document, hconvert, hreceives.read⟩, hname, fun other hother hne => ?_⟩
    refine hreceives.changesAt.read_eq_ok_iff fun written hwritten place hresolve => ?_
    rcases List.mem_cons.mp hwritten with rfl | htemporary
    · exact resolve_documentPath_ne hname hother hne hresolve
    · rw [List.mem_singleton.mp htemporary]
      exact resolve_temporaryPath_ne hname hother hresolve
  · rw [h] at hfault
    cases hfault

/-- A refused publication leaves every document as it is. At most the temporary file is gone, and
its path is that of no document. -/
theorem writeDocument_refused {fault : Fault}
    (h : ((writeDocument grammar entities directory : StateM FileTree _).run tree).1
      = .error fault) {other : Text} (hother : isFileName other = true) (content : Bytes) :
    ((writeDocument grammar entities directory : StateM FileTree _).run tree).2.read
        (documentPath directory other) = .ok content ↔
      tree.read (documentPath directory other) = .ok content := by
  rcases writeDocument_cases failsCleanly_fileTree grammar entities directory tree with
    ⟨-, hok, -⟩ | ⟨-, hsame | ⟨hname, hloses⟩⟩
  · rw [h] at hok
    cases hok
  · rw [hsame]
  · refine hloses.changesAt.read_eq_ok_iff (fun written hwritten place hresolve => ?_) content
    rw [List.mem_singleton.mp hwritten]
    exact resolve_temporaryPath_ne hname hother hresolve

/-! ### A batch -/

/-- A batch writes its first document and goes on with the tree that this leaves, whether it was
written or not. -/
theorem run_writeDocuments_cons (grammar : Grammar) (rest : List Grammar) (entities : Entities)
    (directory : Text) (tree : FileTree) :
    let first := (writeDocument grammar entities directory : StateM FileTree _).run tree
    let others := (writeDocuments rest entities directory : StateM FileTree _).run first.2
    (writeDocuments (grammar :: rest) entities directory : StateM FileTree _).run tree
      = ((grammar.name, first.1) :: others.1, others.2) := by
  unfold writeDocuments
  rw [List.mapM_cons]
  rfl

/-- A batch in two parts is one part after the other. -/
theorem run_writeDocuments_append (before after : List Grammar) (entities : Entities)
    (directory : Text) (tree : FileTree) :
    let first := (writeDocuments before entities directory : StateM FileTree _).run tree
    let others := (writeDocuments after entities directory : StateM FileTree _).run first.2
    (writeDocuments (before ++ after) entities directory : StateM FileTree _).run tree
      = (first.1 ++ others.1, others.2) := by
  unfold writeDocuments
  rw [List.mapM_append]
  rfl

/-- There is one entry for each grammar, in order, with its name. -/
theorem map_fst_writeDocuments (grammars : List Grammar) (entities : Entities) (directory : Text)
    (tree : FileTree) :
    ((writeDocuments grammars entities directory : StateM FileTree _).run tree).1.map Prod.fst
      = grammars.map Grammar.name := by
  induction grammars generalizing tree with
  | nil => rfl
  | cons grammar rest ih =>
    rw [run_writeDocuments_cons, List.map_cons, List.map_cons, ih]

/-- What is reported about a grammar of a batch. -/
structure Report where
  grammar : Grammar
  result : Except Fault Text

/-- The grammars of a batch with what is reported about them. -/
def reports (grammars : List Grammar) (results : List (Text × Except Fault Text)) : List Report :=
  List.zipWith (fun grammar entry => ⟨grammar, entry.2⟩) grammars results

namespace Report

/-- The document is reported as published. -/
def IsPublished (report : Report) : Prop :=
  ∃ path, report.result = .ok path

/-- If the document is reported as published, it is in the file at the path that is reported. -/
def IsKept (entities : Entities) (tree : FileTree) (report : Report) : Prop :=
  ∀ path, report.result = .ok path →
    ∃ document, convert report.grammar entities = .ok document ∧
      tree.read path = .ok (Text.encode document)

end Report

/-- What is reported of a batch is what is reported of its first grammar and of the others. -/
theorem reports_cons (grammar : Grammar) (rest : List Grammar) (entities : Entities)
    (directory : Text) (tree : FileTree) :
    let first := (writeDocument grammar entities directory : StateM FileTree _).run tree
    let others := (writeDocuments rest entities directory : StateM FileTree _).run first.2
    reports (grammar :: rest)
        ((writeDocuments (grammar :: rest) entities directory : StateM FileTree _).run tree).1
      = ⟨grammar, first.1⟩ :: reports rest others.1 := by
  rw [run_writeDocuments_cons]
  rfl

/-- A document is published at the path of its name. In a batch each report is about the grammar
that stands at its position, so the two are gone through together. -/
theorem path_of_mem_reports {grammars : List Grammar} {tree : FileTree} {report : Report}
    (h : report ∈ reports grammars
      ((writeDocuments grammars entities directory : StateM FileTree _).run tree).1)
    {path : Text} (hpath : report.result = .ok path) :
    path = documentPath directory report.grammar.name := by
  induction grammars generalizing tree with
  | nil => cases h
  | cons grammar rest ih =>
    rw [reports_cons] at h
    rcases List.mem_cons.mp h with rfl | hrest
    · exact (writeDocument_published hpath).1
    · exact ih hrest

/-- A document stays at the path of its name for the rest of a batch, if every document that is
published there is the same one. -/
theorem read_writeDocuments {grammars : List Grammar} {tree : FileTree} {name document : Text}
    (hname : isFileName name = true)
    (hread : tree.read (documentPath directory name) = .ok (Text.encode document))
    (hsame : ∀ report ∈ reports grammars
        ((writeDocuments grammars entities directory : StateM FileTree _).run tree).1,
      report.IsPublished → report.grammar.name = name →
        convert report.grammar entities = .ok document) :
    ((writeDocuments grammars entities directory : StateM FileTree _).run tree).2.read
      (documentPath directory name) = .ok (Text.encode document) := by
  induction grammars generalizing tree with
  | nil => exact hread
  | cons grammar rest ih =>
    rw [reports_cons, List.forall_mem_cons] at hsame
    rw [run_writeDocuments_cons]
    refine ih ?_ hsame.2
    -- The first turn either leaves the document alone or publishes the same one in its place.
    cases hresult : ((writeDocument grammar entities directory : StateM FileTree _).run tree).1 with
    | error fault => exact (writeDocument_refused hresult hname _).mpr hread
    | ok path =>
      obtain ⟨hpath, ⟨document', hconvert, hread'⟩, -, hothers⟩ := writeDocument_published hresult
      by_cases hgrammar : name = grammar.name
      · have hconvert' := hsame.1 ⟨path, hresult⟩ hgrammar.symm
        obtain rfl := Except.ok.inj (hconvert.symm.trans hconvert')
        rw [hgrammar, ← hpath]
        exact hread'
      · exact (hothers name hname hgrammar _).mpr hread

/-- Where the grammars of one name have the same document, all documents are kept. The induction
is on the batch, for every tree: what the first grammar publishes stays there for the rest. -/
theorem isKept_of_mem_reports {grammars : List Grammar} {tree : FileTree}
    (hsame : ∀ first ∈ reports grammars
        ((writeDocuments grammars entities directory : StateM FileTree _).run tree).1,
      ∀ second ∈ reports grammars
        ((writeDocuments grammars entities directory : StateM FileTree _).run tree).1,
      first.IsPublished → second.IsPublished → first.grammar.name = second.grammar.name →
        convert first.grammar entities = convert second.grammar entities) :
    ∀ report ∈ reports grammars
        ((writeDocuments grammars entities directory : StateM FileTree _).run tree).1,
      report.IsKept entities
        ((writeDocuments grammars entities directory : StateM FileTree _).run tree).2 := by
  induction grammars generalizing tree with
  | nil => nofun
  | cons grammar rest ih =>
    rw [reports_cons] at hsame ⊢
    rw [run_writeDocuments_cons]
    refine List.forall_mem_cons.mpr ⟨fun path hpath => ?_, ih fun first hfirst second hsecond => ?_⟩
    · obtain ⟨rfl, ⟨document, hconvert, hread⟩, hname, -⟩ := writeDocument_published hpath
      refine ⟨document, hconvert, read_writeDocuments hname hread fun other hother hpublished => ?_⟩
      intro hnames
      rw [← hconvert]
      exact hsame other (List.mem_cons_of_mem _ hother) _ List.mem_cons_self hpublished
        ⟨_, hpath⟩ hnames
    · exact hsame first (List.mem_cons_of_mem _ hfirst) second (List.mem_cons_of_mem _ hsecond)

/-- A batch of documents, from any file tree. There is one entry for each grammar, in order, with
its name.

Every document that is reported is in its file in the end, byte for byte, exactly if the grammars
of one name that are reported as published have the same document.

The entry that a grammar gets at its turn is the one of the batch. If it is an error, every
document in the directory, of whatever name, is as it was before this turn. -/
theorem writeDocuments_keeps_iff (grammars : List Grammar) (entities : Entities) (directory : Text)
    (tree : FileTree) :
    let run := (writeDocuments grammars entities directory : StateM FileTree _).run tree
    run.1.map Prod.fst = grammars.map Grammar.name ∧
    ((∀ report ∈ reports grammars run.1, report.IsKept entities run.2) ↔
      ∀ first ∈ reports grammars run.1, ∀ second ∈ reports grammars run.1,
        first.IsPublished → second.IsPublished → first.grammar.name = second.grammar.name →
          convert first.grammar entities = convert second.grammar entities) ∧
    ∀ before grammar after, grammars = before ++ grammar :: after →
      let reached :=
        ((writeDocuments before entities directory : StateM FileTree _).run tree).2
      let turn := (writeDocument grammar entities directory : StateM FileTree _).run reached
      run.1[before.length]? = some (grammar.name, turn.1) ∧
        ((∃ fault, turn.1 = .error fault) →
          ∀ other, isFileName other = true → ∀ content,
            turn.2.read (documentPath directory other) = .ok content ↔
              reached.read (documentPath directory other) = .ok content) := by
  refine ⟨map_fst_writeDocuments grammars entities directory tree,
    ⟨fun hkept first hfirst second hsecond => ?_, isKept_of_mem_reports⟩, ?_⟩
  · -- Two documents of one name are read from one file.
    rintro ⟨path, hpath⟩ ⟨path', hpath'⟩ hnames
    obtain ⟨document, hconvert, hread⟩ := hkept first hfirst path hpath
    obtain ⟨document', hconvert', hread'⟩ := hkept second hsecond path' hpath'
    rw [path_of_mem_reports hfirst hpath, hnames, ← path_of_mem_reports hsecond hpath', hread',
      Except.ok.injEq] at hread
    have hdecode := congrArg Text.decode? hread
    rw [Text.decode?_encode, Text.decode?_encode, Option.some.injEq] at hdecode
    rw [hconvert, hconvert', hdecode]
  · rintro before grammar after rfl
    have hlength := congrArg List.length (map_fst_writeDocuments before entities directory tree)
    rw [List.length_map, List.length_map] at hlength
    refine ⟨?_, fun ⟨fault, hfault⟩ other hother => writeDocument_refused hfault hother⟩
    rw [run_writeDocuments_append, run_writeDocuments_cons, ← hlength,
      List.getElem?_append_right (Nat.le_refl _), Nat.sub_self]
    rfl

/-- A grammar that says one word and has a name that others may have. -/
def namesake (word : Text) : Grammar :=
  Grammar.ofRules "X".toList .unknown [{ id := Grammar.rootId, replacements := [word] }]

/-- Two grammar files may give their grammars one name. Then both documents are reported as
published, at the same path, and the first one is lost. -/
theorem writeDocuments_loses_document :
    ∃ one two after,
      Grammar.parse "a".toList "; grammar name X\n$Main = one".toList
        = .ok (namesake "one".toList) ∧
      Grammar.parse "b".toList "; grammar name X\n$Main = two".toList
        = .ok (namesake "two".toList) ∧
      convert (namesake "one".toList) Entities.empty = .ok one ∧
      convert (namesake "two".toList) Entities.empty = .ok two ∧ one ≠ two ∧
      (writeDocuments [namesake "one".toList, namesake "two".toList] Entities.empty ".".toList :
          StateM FileTree _).run FileTree.empty
        = ([("X".toList, .ok "./X.xml".toList), ("X".toList, .ok "./X.xml".toList)], after) ∧
      after.read "./X.xml".toList = .ok (Text.encode two) := by
  refine ⟨_, _, _, rfl, rfl, rfl, rfl, ?_, rfl, rfl⟩
  decide +kernel

end Speech

end TaskGrammar
