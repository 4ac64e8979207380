import TaskGrammar.Proofs.Grammar.Forms

/-!
# `TaskGrammar.Proofs.Grammar.Layout`: layout of grammar files

Blanks around lines, blank lines, comments and carriage returns before the feeds carry no
meaning in a grammar file. They do move the lines, though, and a blank at the end of a line is
not told from half of a line's end: the reader drops one carriage return with the feed. So the file
is compared piece by piece, as its feeds cut it, and not line by line.

* `saidBy_lines`: the lines of a file and the pieces between its feeds say the same.
* `saidBy_of_relaid`: so do the pieces of a file in another layout.
* `applyLines_unnumbered`: up to the number in a fault, a run over lines depends on no line that
  says nothing.
* `parse_of_relaid`: a file in another layout parses to the same grammar, or to the same fault up
  to the number of the line.
-/

set_option autoImplicit false

namespace TaskGrammar

/-! ### Other layouts -/

/-- A fault without the number of a line. -/
def Fault.unnumbered : Fault → Fault
  | malformedLine _ => malformedLine 0
  | fault => fault

/-- A text with a carriage return before each feed. -/
def Text.withReturns (t : Text) : Text :=
  t.flatMap fun c => if c = '\n' then ['\r', '\n'] else [c]

/-- The pieces of a file in another layout. A piece may have more blanks around it, blank pieces
and comments may come before it, and nothing needs to come behind the last feed. -/
inductive Relaid : List Text → List Text → Prop
  | nil : Relaid [] []
  | kept (before after : Text) {line : Text} {pieces relaid : List Text}
      (atStart : before.all Text.isBlank = true) (atEnd : after.all Text.isBlank = true)
      (later : Relaid pieces relaid) :
      Relaid (line :: pieces) ((before ++ line ++ after) :: relaid)
  | added (line : Text) {pieces relaid : List Text}
      (form : Text.trim line = [] ∨ Line.IsComment (Text.trim line))
      (later : Relaid pieces relaid) : Relaid pieces (line :: relaid)
  | unended : Relaid [[]] []

/-! ### What the pieces say -/

/-- What the lines of a file say, without those that say nothing. -/
def saidBy (lines : List Text) : List Line :=
  (lines.map Line.ofText).filter fun line => line ≠ .nothing

/-- A line that says nothing can be left out. -/
theorem saidBy_cons_of_nothing {line : Text} (h : Line.ofText line = .nothing) (lines : List Text) :
    saidBy (line :: lines) = saidBy lines := by
  simp [saidBy, h]

/-- Lines that say the same can take each other's place. -/
theorem saidBy_cons_congr {line other : Text} {lines others : List Text}
    (h : Line.ofText line = Line.ofText other) (hlater : saidBy lines = saidBy others) :
    saidBy (line :: lines) = saidBy (other :: others) := by
  unfold saidBy at hlater ⊢
  rw [List.map_cons, List.map_cons, h, List.filter_cons, List.filter_cons, hlater]

/-- Blanks around a line do not change what it says, as a line is trimmed before it is read. -/
theorem Line.ofText_append {before after : Text} (hbefore : before.all Text.isBlank = true)
    (hafter : after.all Text.isBlank = true) (line : Text) :
    ofText (before ++ line ++ after) = ofText line := by
  rw [ofText, Text.trim_append_of_all_isBlank_right _ hafter,
    Text.trim_append_of_all_isBlank_left hbefore, ofText]

/-- The lines of a file and the pieces between its feeds say the same. A carriage return that is
dropped with a feed is a blank, and a last piece that is no line says nothing. -/
theorem saidBy_lines (t : Text) : saidBy (Text.lines t) = saidBy (Text.splitOn '\n' t) := by
  induction t using Text.pieces_induction '\n' with
  | last piece hpiece =>
    rw [Text.splitOn_of_notMem hpiece]
    cases piece with
    | nil => rfl
    | cons c piece => rw [Text.lines, Text.cutLines_of_notMem (List.cons_ne_nil c piece) hpiece]
  | cons piece rest hpiece ih =>
    obtain ⟨line, hline, hcut⟩ :=
      Text.exists_cutLines_append_feed (show '\r' ≠ '\n' by decide) hpiece
    rw [Text.splitOn_append_cons rest hpiece, Text.lines, hcut]
    refine saidBy_cons_congr ?_ ih
    rcases hline with rfl | rfl
    · rfl
    · -- The feed is gone in both; the carriage return in front of it only in one.
      have hblank : Line.ofText ([] ++ line ++ ['\r']) = Line.ofText line :=
        Line.ofText_append rfl (by decide) line
      exact hblank.symm

/-- The pieces of a file in another layout say the same. The induction is on the layout, with one
case for each kind of edit. -/
theorem saidBy_of_relaid {pieces relaid : List Text} (h : Relaid pieces relaid) :
    saidBy relaid = saidBy pieces := by
  induction h with
  | nil => rfl
  | kept _ _ atStart atEnd _ ih => exact saidBy_cons_congr (Line.ofText_append atStart atEnd _) ih
  | added _ form _ ih =>
    exact (saidBy_cons_of_nothing (Line.ofText_eq_nothing_iff.mpr form) _).trans ih
  | unended => rfl

/-- Carriage returns before the feeds are one such layout: they are blanks at the ends of the
lines. -/
theorem relaid_withReturns (t : Text) :
    Relaid (Text.splitOn '\n' t) (Text.splitOn '\n' t.withReturns) := by
  have hsame : ∀ piece : Text, '\n' ∉ piece → piece.withReturns = piece := by
    intro piece hpiece
    have hkept : ∀ c ∈ piece, (if c = '\n' then ['\r', '\n'] else [c]) = [c] := by
      intro c hc
      rw [if_neg]
      rintro rfl
      exact hpiece hc
    rw [Text.withReturns, List.flatMap_congr hkept, List.flatMap_singleton']
  induction t using Text.pieces_induction '\n' with
  | last piece hpiece =>
    rw [hsame piece hpiece, Text.splitOn_of_notMem hpiece]
    have hkept : Relaid [piece] [[] ++ piece ++ []] := .kept [] [] rfl rfl .nil
    rwa [List.nil_append, List.append_nil] at hkept
  | cons piece rest hpiece ih =>
    have hreturns : Text.withReturns (piece ++ '\n' :: rest)
        = (piece ++ ['\r']) ++ '\n' :: Text.withReturns rest := by
      rw [Text.withReturns, List.flatMap_append, ← Text.withReturns, hsame piece hpiece,
        List.append_assoc]
      rfl
    have hpiece' : '\n' ∉ piece ++ ['\r'] := by
      simpa using hpiece
    rw [hreturns, Text.splitOn_append_cons rest hpiece, Text.splitOn_append_cons _ hpiece']
    exact .kept [] ['\r'] rfl (by decide) ih

/-! ### What a file parses to -/

namespace Grammar

/-- Up to the number in its fault, a line does the same wherever it stands. The table it is added
to is the only other thing that it depends on. -/
theorem applyLine_unnumbered (number : Nat) (line : Line) (grammar : Grammar) :
    (applyLine number line grammar).mapError Fault.unnumbered = applyLine 0 line grammar := by
  cases line with
  | tier value =>
    rw [applyLine, applyLine]
    cases Tier.ofName? value <;> rfl
  | nothing | name _ | rule _ _ | malformed => rfl

/-- What a line says comes first, and that is nothing for a line that says nothing. Such a line
may be left out of the fold, though the numbers of the lines after it change. -/
theorem foldlM_saidBy_cons (text : Text) (lines : List Text) (grammar : Grammar) :
    (saidBy (text :: lines)).foldlM (fun grammar line => applyLine 0 line grammar) grammar
      = (applyLine 0 (.ofText text) grammar).bind fun next =>
          (saidBy lines).foldlM (fun grammar line => applyLine 0 line grammar) next := by
  by_cases hline : Line.ofText text = .nothing
  · rw [saidBy_cons_of_nothing hline, hline]
    rfl
  · have hsaid : saidBy (text :: lines) = .ofText text :: saidBy lines := by
      simp [saidBy, hline]
    rw [hsaid]
    rfl

/-- Up to the number in its fault, a run over lines depends on what the lines say, and on no line
that says nothing. -/
theorem applyLines_unnumbered (number : Nat) (lines : List Text) (grammar : Grammar) :
    (applyLines number lines grammar).mapError Fault.unnumbered
      = (saidBy lines).foldlM (fun grammar line => applyLine 0 line grammar) grammar := by
  induction lines generalizing number grammar with
  | nil => rfl
  | cons text rest ih =>
    rw [foldlM_saidBy_cons, applyLines, ← applyLine_unnumbered number]
    cases applyLine number (.ofText text) grammar with
    | error fault => rfl
    | ok next => exact ih _ _

/-- Up to the number in its fault, so does what a file parses to. With this equation a file can be
given another layout although the lines in it are counted. -/
theorem parse_unnumbered (defaultName source : Text) :
    (parse defaultName source).mapError Fault.unnumbered
      = ((saidBy (Text.lines source)).foldlM (fun grammar line => applyLine 0 line grammar)
          (empty defaultName .unknown)).bind requireRoot := by
  rw [← applyLines_unnumbered 1, parse]
  cases applyLines 1 (Text.lines source) (empty defaultName .unknown) with
  | error fault => rfl
  | ok grammar =>
    show grammar.requireRoot.mapError Fault.unnumbered = grammar.requireRoot
    rw [requireRoot_eq]
    split <;> rfl

/-- A file in another layout, with carriage returns before its feeds or without, parses to the same
grammar, or to the same fault up to the number of a line. -/
theorem parse_of_relaid (defaultName : Text) {source edited : Text}
    (h : Relaid (Text.splitOn '\n' source) (Text.splitOn '\n' edited)) :
    (parse defaultName edited).mapError Fault.unnumbered
        = (parse defaultName source).mapError Fault.unnumbered ∧
      (parse defaultName edited.withReturns).mapError Fault.unnumbered
        = (parse defaultName source).mapError Fault.unnumbered := by
  have hsaid := saidBy_of_relaid h
  have hreturns := saidBy_of_relaid (relaid_withReturns edited)
  simp only [parse_unnumbered, saidBy_lines, hreturns, hsaid, and_self]

/-- A file with a carriage return inside of a line and a rule without a right-hand side. -/
def compact : Text :=
  "; grammar tier Easy\n$Main = $go\r| wait\n$go=\n".toList

/-- The same file with comments, a blank line, and blanks around its lines, without the last
feed. -/
def roomy : Text :=
  "# errands\n\t; grammar tier Easy\n\n$Main = $go\r| wait \r\n".toList ++
    "\u00a0$go=\n;grammar tiers".toList

/-- The roomy file is another layout of the compact one and parses to the same rules. -/
theorem parse_of_relaid_roomy :
    Relaid (Text.splitOn '\n' compact) (Text.splitOn '\n' roomy) ∧
      (parse "errand".toList roomy).mapError Fault.unnumbered
        = .ok (ofRules "errand".toList .easy
          [{ id := "$Main".toList, replacements := ["$go".toList, "wait".toList] },
            { id := "$go".toList, replacements := [] }]) := by
  have hcompact : Text.splitOn '\n' compact
      = ["; grammar tier Easy".toList, "$Main = $go\r| wait".toList, "$go=".toList, []] := by
    decide
  have hroomy : Text.splitOn '\n' roomy
      = ["# errands".toList, "\t".toList ++ "; grammar tier Easy".toList ++ [], [],
        [] ++ "$Main = $go\r| wait".toList ++ " \r".toList,
        "\u00a0".toList ++ "$go=".toList ++ [], ";grammar tiers".toList] := by
    decide
  have hrelaid : Relaid (Text.splitOn '\n' compact) (Text.splitOn '\n' roomy) := by
    rw [hcompact, hroomy]
    refine .added _ (Line.ofText_eq_nothing_iff.mp rfl) (.kept _ _ rfl rfl ?_)
    refine .added _ (.inl rfl) (.kept _ _ rfl rfl (.kept _ _ rfl rfl ?_))
    exact .added _ (Line.ofText_eq_nothing_iff.mp rfl) .unended
  exact ⟨hrelaid, (parse_of_relaid "errand".toList hrelaid).1⟩

/-- The number of a line does change with the layout. -/
example : parse [] "?".toList = .error (.malformedLine 1) ∧
    parse [] "\n?".toList = .error (.malformedLine 2) :=
  ⟨rfl, rfl⟩

end Grammar

end TaskGrammar
