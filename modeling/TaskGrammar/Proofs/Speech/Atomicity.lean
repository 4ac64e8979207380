import TaskGrammar.Proofs.Speech.Publication

/-!
# `TaskGrammar.Proofs.Speech.Atomicity`: one document, published or not

Between the first byte of a document and its name there are four steps that may fail: the check of
the name, the conversion, the write to the temporary file and the move. The write may even fail
halfway. Whichever it is, the file of the document is either the new document or what it was
before, and nothing else in the directory or out of it is touched. The storage is any that fails
cleanly (`TaskGrammar.Proofs.Storage.Failures`).

* `receives_document`: where a document and its temporary file are, seen from the directory.
* `losesAtMost_document`: what a refusal leaves alone.
* `writeDocument_all_or_nothing`: the two ends of a publication.
-/

set_option autoImplicit false

namespace TaskGrammar.Speech

open FileTree Storage

variable {before after : FileTree} {directory name : Text}

/-- A temporary file is directly in the directory. -/
theorem enters_of_resolve_temporaryPath (hname : isFileName name = true) {place : Place}
    (hresolve : before.resolve (temporaryPath (documentPath directory name)) = .ok place) :
    ∃ around, before.Enters directory around ∧ place = around ++ [name ++ ".xml.tmp".toList] := by
  rw [temporaryPath_documentPath] at hresolve
  exact enters_of_resolve_join (isName_temporary hname) hresolve

/-- A document that is received is directly in the directory, where its temporary file is no
more. -/
theorem receives_document (hname : isFileName name = true) {content : Bytes}
    (h : Receives (documentPath directory name) content
      (temporaryPath (documentPath directory name)) before after) :
    ∃ around, before.Enters directory around ∧
      after.resolve (documentPath directory name) = .ok (around ++ [name ++ ".xml".toList]) ∧
      after.node? (around ++ [name ++ ".xml".toList]) = some (.file content) ∧
      after.node? (around ++ [name ++ ".xml.tmp".toList]) = none ∧
      ∀ place, place ≠ around ++ [name ++ ".xml".toList] →
        place ≠ around ++ [name ++ ".xml.tmp".toList] →
          after.node? place = before.node? place := by
  have hchanges := h.changesAt
  obtain ⟨place, place', hresolve, hresolve', -, -, hafter⟩ := h
  obtain ⟨around, henters, rfl⟩ := enters_of_resolve_join (isName_document hname) hresolve
  obtain ⟨around', henters', rfl⟩ := enters_of_resolve_temporaryPath hname hresolve'
  -- The path of the directory leads to one place only, so both files are in the same one.
  obtain rfl := henters.unique henters'
  have hne : around ++ [name ++ ".xml.tmp".toList] ≠ around ++ [name ++ ".xml".toList] := by
    intro hsame
    rw [List.append_cancel_left_eq, List.singleton_inj] at hsame
    exact document_ne_temporary name name hsame.symm
  refine ⟨around, henters, (hchanges.resolve_eq_ok_iff _ _).mpr hresolve, ?_, ?_, ?_⟩
  · rw [hafter, if_pos rfl]
  · rw [hafter, if_neg hne, if_pos rfl]
  · intro place hplace hplace'
    rw [hafter, if_neg hplace, if_neg hplace']

/-- A refusal touches no document, and no file at all but the temporary one. Its path is the only
one at which anything may have changed, and it leads to no document. -/
theorem losesAtMost_document (hname : isFileName name = true)
    (h : LosesAtMost (temporaryPath (documentPath directory name)) before after) :
    (∀ around, after.node? (around ++ [name ++ ".xml".toList])
      = before.node? (around ++ [name ++ ".xml".toList])) ∧
    ∀ place, after.node? place = before.node? place ∨
      ∃ around content, before.Enters directory around ∧
        place = around ++ [name ++ ".xml.tmp".toList] ∧
        before.node? place = some (.file content) ∧ after.node? place = none := by
  constructor
  · intro around
    rcases h (around ++ [name ++ ".xml".toList]) with hsame | ⟨hresolve, -, -⟩
    · exact hsame
    · -- The temporary file would have the name of a document, and no name ends in both ways.
      obtain ⟨around', -, hplace⟩ := enters_of_resolve_temporaryPath hname hresolve
      have hnames := List.singleton_inj.mp (List.append_inj' hplace rfl).2
      exact absurd hnames (document_ne_temporary name name)
  · intro place
    rcases h place with hsame | ⟨hresolve, hnode, hafter⟩
    · exact .inl hsame
    · cases hbefore : before.node? place with
      | none => exact .inl (by rw [hafter])
      | some node =>
        cases node with
        | directory => exact absurd hbefore hnode
        | file content =>
          obtain ⟨around, henters, hplace⟩ := enters_of_resolve_temporaryPath hname hresolve
          exact .inr ⟨around, content, henters, hplace, rfl, hafter⟩

/-- The publication of a document, for a grammar of any name, from any files.

If it is reported, the document is the file of its name directly in the directory. No temporary
file is left, and everything else is as it was.

If it is refused, everything is as it was, the file of the document among it. Only a temporary
file that was there before may be gone. -/
theorem writeDocument_all_or_nothing {σ : Type} [Storage (StateM σ)] {view : σ → FileTree}
    (h : FailsCleanly view) (grammar : Grammar) (entities : Entities) (directory : Text)
    (state : σ) :
    let run := (writeDocument grammar entities directory : StateM σ _).run state
    let document := grammar.name ++ ".xml".toList
    let temporary := grammar.name ++ ".xml.tmp".toList
    let before := view state
    let after := view run.2
    (∀ path, run.1 = .ok path →
      path = Path.join directory document ∧
      ∃ content around, convert grammar entities = .ok content ∧
        before.Enters directory around ∧
        after.resolve path = .ok (around ++ [document]) ∧
        after.node? (around ++ [document]) = some (.file (Text.encode content)) ∧
        after.node? (around ++ [temporary]) = none ∧
        ∀ place, place ≠ around ++ [document] → place ≠ around ++ [temporary] →
          after.node? place = before.node? place) ∧
    ∀ fault, run.1 = .error fault →
      (∀ around, after.node? (around ++ [document]) = before.node? (around ++ [document])) ∧
      ∀ place, after.node? place = before.node? place ∨
        ∃ around content, before.Enters directory around ∧ place = around ++ [temporary] ∧
          before.node? place = some (.file content) ∧ after.node? place = none := by
  intro run document temporary before after
  rcases writeDocument_cases h grammar entities directory state with
    ⟨hname, hok, content, hconvert, hreceives⟩ | ⟨⟨fault, hfault⟩, hleft⟩
  · refine ⟨fun path hpath => ?_, fun fault hfault => ?_⟩
    · obtain rfl := Except.ok.inj (hpath.symm.trans hok)
      obtain ⟨around, hreceived⟩ := receives_document hname hreceives
      exact ⟨rfl, content, around, hconvert, hreceived⟩
    · cases hok.symm.trans hfault
  · refine ⟨fun path hpath => ?_, fun _ _ => ?_⟩
    · cases hfault.symm.trans hpath
    · rcases hleft with hsame | ⟨hname, hloses⟩
      · -- The name or the grammar is at fault, and nothing has been tried.
        have hview : after = before := congrArg view hsame
        rw [hview]
        exact ⟨fun _ => rfl, fun _ => .inl rfl⟩
      · exact losesAtMost_document hname hloses

/-- A disk with an old document of a grammar with the name `X`. -/
def shelf (room : Nat) : Disk :=
  { room, tree := FileTree.empty.addFile "out/X.xml".toList [1] }

/-- On a disk with little room the old document stays, although a part of the new one has been
written next to it. On a larger one it is replaced. -/
theorem writeDocument_all_or_nothing_shelf :
    FailsCleanly Disk.tree ∧
    ∃ fault path content around small large,
      (writeDocument (namesake "one".toList) Entities.empty "out".toList :
        StateM Disk _).run (shelf 10) = (.error fault, small) ∧
      small.tree.node? ["out".toList, "X.xml".toList] = some (.file [1]) ∧
      (writeDocument (namesake "one".toList) Entities.empty "out".toList :
        StateM Disk _).run (shelf 4096) = (.ok path, large) ∧
      path = "out/X.xml".toList ∧
      convert (namesake "one".toList) Entities.empty = .ok content ∧
      large.tree.node? (around ++ ["X.xml".toList]) = some (.file (Text.encode content)) := by
  -- The runs are evaluated for their reports only; the files are what the theorem says of them.
  have hrefused : ((writeDocument (namesake "one".toList) Entities.empty "out".toList :
      StateM Disk _).run (shelf 10)).1.toOption = none := by decide +kernel
  have hreported : ((writeDocument (namesake "one".toList) Entities.empty "out".toList :
      StateM Disk _).run (shelf 4096)).1.toOption = some "out/X.xml".toList := by decide +kernel
  have hsmall := writeDocument_all_or_nothing failsCleanly_disk (namesake "one".toList)
    Entities.empty "out".toList (shelf 10)
  have hlarge := writeDocument_all_or_nothing failsCleanly_disk (namesake "one".toList)
    Entities.empty "out".toList (shelf 4096)
  have hname : (namesake "one".toList).name ++ ".xml".toList = "X.xml".toList := rfl
  dsimp only at hsmall hlarge
  rw [hname] at hsmall hlarge
  generalize (writeDocument (namesake "one".toList) Entities.empty "out".toList :
    StateM Disk _).run (shelf 10) = small at hrefused hsmall ⊢
  generalize (writeDocument (namesake "one".toList) Entities.empty "out".toList :
    StateM Disk _).run (shelf 4096) = large at hreported hlarge ⊢
  obtain ⟨fault | path, small⟩ := small
  · obtain ⟨fault' | path, large⟩ := large
    · cases hreported
    · obtain rfl := Option.some.inj hreported
      obtain ⟨hkept, -⟩ := hsmall.2 fault rfl
      obtain ⟨hpath, content, around, hconvert, -, -, hnode, -⟩ := hlarge.1 _ rfl
      exact ⟨failsCleanly_disk, fault, _, content, around, small, large, rfl,
        hkept ["out".toList], rfl, hpath, hconvert, hnode⟩
  · cases hrefused

end TaskGrammar.Speech
