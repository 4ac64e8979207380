import TaskGrammar.Proofs.Grammar.Alternatives

/-!
# `TaskGrammar.Proofs.Grammar.Splitting`: alternatives put together again

The alternatives of a right-hand side are cut out at positions, which count bytes, and trimmed.
Bars are told apart by a count of braces that goes on from the front of the line, while each
alternative, taken by itself, is counted from its own front. The two counts agree because an
alternative ends only where no brace is open, and trimming, which takes away blanks and no braces,
does not change this. So alternatives can be written in a line again, with bars between them.

* `sliceAlternatives`: the cut at positions. `sliceAlternatives_eq` says that it never cuts
  through a character, and that the pieces are the alternatives.
* `AreAlternatives`: what texts are like that are the alternatives of something. By
  `alternatives_join_iff` all texts like this are the alternatives of the line they are written in.
* `cutAtBars_induction`: to cut off one piece after the other, as a way to prove things.
* `map_trim_cutAtBars_trim`: it does not matter whether the line is trimmed before it is cut.
* `alternatives_stable`: all this for the alternatives of any right-hand side.
-/

set_option autoImplicit false

namespace TaskGrammar

/-! ### Blanks -/

namespace Text

/-- Blanks open and close nothing. -/
theorem openBraces_of_all_isBlank {t : Text} (h : t.all isBlank = true) (depth : Nat) :
    openBraces depth t = depth :=
  openBraces_of_notMem_notMem (Segment.notMem_of_all h (by decide))
    (Segment.notMem_of_all h (by decide))

/-- Trimming does not change the count, as it takes only blanks away. A line is trimmed as a whole
and its pieces are trimmed again, and neither moves a bar into a brace or out of it. -/
theorem openBraces_trim (depth : Nat) (t : Text) :
    openBraces depth (trim t) = openBraces depth t := by
  obtain ⟨before, after, hbefore, hafter, ht⟩ := exists_append_trim t
  conv_rhs => rw [ht]
  rw [openBraces_append, openBraces_append, openBraces_of_all_isBlank hbefore,
    openBraces_of_all_isBlank hafter]

/-- What is inside of braces is so without the blanks around. -/
theorem BarsInside.trim {t : Text} (h : t.BarsInside) : (trim t).BarsInside := by
  intro start later heq
  obtain ⟨before, after, hbefore, -, ht⟩ := exists_append_trim t
  have hwhole : t = (before ++ start) ++ '|' :: (later ++ after) := by
    rw [ht, heq]
    simp
  have hopen := h _ _ hwhole
  rwa [openBraces_append, openBraces_of_all_isBlank hbefore] at hopen

end Text

/-! ### The cut -/

/-- The first piece, when there are more. It is in one piece itself, no brace is open behind it,
and the others are those of the rest. -/
theorem cutAtBars_eq_cons_cons {t piece second : Text} {pieces : List Text}
    (hcut : cutAtBars 0 t = piece :: second :: pieces) :
    piece.BarsInside ∧ Text.openBraces 0 piece = 0 ∧
      ∃ rest, t = piece ++ '|' :: rest ∧ cutAtBars 0 rest = second :: pieces := by
  have hclosed : Text.openBraces 0 piece = 0 := by
    have hsplit : cutAtBars 0 t = [piece] ++ second :: pieces := hcut
    have hopen := openBraces_join_of_cutAtBars hsplit (by simp) (by simp)
    simpa [Text.join] using hopen
  have ht : t = piece ++ '|' :: Text.join ['|'] (second :: pieces) := by
    have hjoin := join_cutAtBars 0 t
    rw [hcut, Text.join_cons_cons] at hjoin
    rw [← hjoin]
    simp
  have hparts := cutAtBars_append_bar (Text.join ['|'] (second :: pieces)) hclosed
  rw [← ht, hcut] at hparts
  -- The piece is the first one that is cut off itself, so nothing else is cut off it.
  obtain ⟨first, others, hfirst⟩ := List.exists_cons_of_ne_nil (cutAtBars_ne_nil 0 piece)
  rw [hfirst, List.cons_append] at hparts
  obtain ⟨rfl, hrest⟩ := List.cons.inj hparts
  have hwhole := join_cutAtBars 0 piece
  rw [hfirst] at hwhole
  cases others with
  | cons other others =>
    -- With a second one the pieces would be longer than the text.
    rw [Text.join_cons_cons] at hwhole
    have hlength := congrArg List.length hwhole
    simp at hlength
  | nil =>
    exact ⟨cutAtBars_eq_singleton_iff.mp hfirst, hclosed, _, ht, hrest.symm⟩

/-- A text that is not cut, and a first piece before a bar and a text of which this is known: to
prove something of all texts and their pieces these are the cases. -/
@[elab_as_elim]
theorem cutAtBars_induction {motive : Text → List Text → Prop}
    (last : ∀ piece : Text, piece.BarsInside → motive piece [piece])
    (cons : ∀ piece rest : Text, piece.BarsInside → Text.openBraces 0 piece = 0 →
      motive rest (cutAtBars 0 rest) → motive (piece ++ '|' :: rest) (piece :: cutAtBars 0 rest))
    (t : Text) : motive t (cutAtBars 0 t) := by
  obtain ⟨piece, pieces, hcut⟩ := List.exists_cons_of_ne_nil (cutAtBars_ne_nil 0 t)
  cases pieces with
  | nil =>
    obtain rfl : piece = t := by
      have hjoin := join_cutAtBars 0 t
      rw [hcut] at hjoin
      simpa [Text.join] using hjoin
    rw [hcut]
    exact last piece (cutAtBars_eq_singleton_iff.mp hcut)
  | cons second pieces =>
    obtain ⟨hinside, hclosed, rest, rfl, hrest⟩ := cutAtBars_eq_cons_cons hcut
    rw [hcut, ← hrest]
    have hshorter : rest.length < (piece ++ '|' :: rest).length := by simp; omega
    exact cons piece rest hinside hclosed (cutAtBars_induction last cons rest)
termination_by t.length

/-- Without the bars in between every piece is one by itself. So to cut a piece again gives the
piece. -/
theorem barsInside_of_mem_cutAtBars {t piece : Text} (h : piece ∈ cutAtBars 0 t) :
    piece.BarsInside := by
  induction t using cutAtBars_induction with
  | last whole hinside => rwa [List.mem_singleton.mp h]
  | cons first rest hinside _ ih =>
    rcases List.mem_cons.mp h with rfl | hlater
    · exact hinside
    · exact ih hlater

/-- Only in the last piece a brace may stay open. The pieces before it end at a bar that
separates. -/
theorem openBraces_of_mem_dropLast_cutAtBars {t piece : Text}
    (h : piece ∈ (cutAtBars 0 t).dropLast) : Text.openBraces 0 piece = 0 := by
  induction t using cutAtBars_induction with
  | last whole _ => cases h
  | cons first rest _ hclosed ih =>
    rw [List.dropLast_cons_of_ne_nil (cutAtBars_ne_nil 0 rest)] at h
    rcases List.mem_cons.mp h with rfl | hlater
    · exact hclosed
    · exact ih hlater

/-- Blanks in front of a text are trimmed off its first piece. The other pieces do not change. -/
theorem map_trim_cutAtBars_append_left {before : Text} (h : before.all Text.isBlank = true)
    (t : Text) :
    (cutAtBars 0 (before ++ t)).map Text.trim = (cutAtBars 0 t).map Text.trim := by
  obtain ⟨piece, pieces, hcut⟩ := List.exists_cons_of_ne_nil (cutAtBars_ne_nil 0 t)
  have hbar : '|' ∉ before := Segment.notMem_of_all h (by decide)
  have hinside : ∀ start later, before = start ++ '|' :: later → 0 < Text.openBraces 0 start :=
    fun start later heq => absurd (heq ▸ by simp) hbar
  have hopen : cutAtBars (Text.openBraces 0 before) t = piece :: pieces := by
    rw [Text.openBraces_of_all_isBlank h, hcut]
  rw [cutAtBars_append hinside hopen, hcut, List.map_cons, List.map_cons,
    Text.trim_append_of_all_isBlank_left h]

/-- Blanks behind a text are trimmed off its last piece. The induction on the pieces goes to where
this one is. -/
theorem map_trim_cutAtBars_append_right (t : Text) {after : Text}
    (h : after.all Text.isBlank = true) :
    (cutAtBars 0 (t ++ after)).map Text.trim = (cutAtBars 0 t).map Text.trim := by
  have hbar : '|' ∉ after := Segment.notMem_of_all h (by decide)
  induction t using cutAtBars_induction with
  | last piece hinside =>
    have hafter : cutAtBars (Text.openBraces 0 piece) after = [after] :=
      cutAtBars_eq_singleton_iff.mpr fun start later heq => absurd (heq ▸ by simp) hbar
    rw [cutAtBars_append hinside hafter, List.map_singleton, List.map_singleton,
      Text.trim_append_of_all_isBlank_right piece h]
  | cons piece rest hinside hclosed ih =>
    rw [List.append_assoc, List.cons_append, cutAtBars_append_bar _ hclosed,
      cutAtBars_eq_singleton_iff.mpr hinside, List.singleton_append, List.map_cons,
      List.map_cons, ih]

/-- It does not matter whether a line is trimmed before it is cut, since each piece is trimmed
afterwards. -/
theorem map_trim_cutAtBars_trim (t : Text) :
    (cutAtBars 0 (Text.trim t)).map Text.trim = (cutAtBars 0 t).map Text.trim := by
  obtain ⟨before, after, hbefore, hafter, ht⟩ := Text.exists_append_trim t
  conv_rhs => rw [ht]
  rw [map_trim_cutAtBars_append_left hbefore, map_trim_cutAtBars_append_right _ hafter]

/-! ### Alternatives -/

/-- Only a blank right-hand side has no alternatives at all. Any other has one for each bar
outside of braces and one more. -/
theorem alternatives_eq_nil_iff {source : Text} :
    alternatives source = [] ↔ source.all Text.isBlank = true := by
  rw [← Text.trim_eq_nil_iff, alternatives]
  split
  · rename_i h
    exact iff_of_true rfl h
  · rename_i h
    exact iff_of_false (fun hnil => cutAtBars_ne_nil 0 _ (List.map_eq_nil_iff.mp hnil)) h

/-- What texts are like that are the alternatives of a right-hand side. -/
structure AreAlternatives (pieces : List Text) : Prop where
  /-- There are no blanks around any of them. -/
  trimmed : ∀ piece ∈ pieces, Text.trim piece = piece
  /-- Counted from its own front, a brace is open at each bar in it. -/
  barsInside : ∀ piece ∈ pieces, piece.BarsInside
  /-- At its end none is open, unless it is the last one. -/
  closed : ∀ piece ∈ pieces.dropLast, Text.openBraces 0 piece = 0
  /-- One that is empty is not the only one. -/
  visible : pieces ≠ [[]]

/-- The alternatives of any right-hand side are like this. A piece was cut where no brace was
open, so its own count starts from none as well. -/
theorem areAlternatives_alternatives (source : Text) : AreAlternatives (alternatives source) := by
  by_cases hblank : Text.trim source = []
  · rw [alternatives, if_pos hblank]
    exact ⟨by simp, by simp, by simp, by simp⟩
  · rw [alternatives, if_neg hblank]
    refine ⟨?_, ?_, ?_, ?_⟩
    · intro piece hpiece
      obtain ⟨raw, -, rfl⟩ := List.mem_map.mp hpiece
      exact Text.trim_trim raw
    · intro piece hpiece
      obtain ⟨raw, hraw, rfl⟩ := List.mem_map.mp hpiece
      exact (barsInside_of_mem_cutAtBars hraw).trim
    · intro piece hpiece
      rw [← List.map_dropLast] at hpiece
      obtain ⟨raw, hraw, rfl⟩ := List.mem_map.mp hpiece
      rw [Text.openBraces_trim]
      exact openBraces_of_mem_dropLast_cutAtBars hraw
    · -- A single piece is the whole line, of which something is left.
      intro hone
      obtain ⟨raw, hraw, hempty⟩ := List.map_eq_singleton_iff.mp hone
      have hjoin := join_cutAtBars 0 (Text.trim source)
      rw [hraw] at hjoin
      have hsame : raw = Text.trim source := by simpa [Text.join] using hjoin
      rw [hsame, Text.trim_trim] at hempty
      exact hblank hempty

/-- With bars between them, and blanks around the bars, the texts are cut where they were put
together. -/
theorem map_trim_cutAtBars_join {pieces : List Text} (hne : pieces ≠ [])
    (htrimmed : ∀ piece ∈ pieces, Text.trim piece = piece)
    (hinside : ∀ piece ∈ pieces, piece.BarsInside)
    (hclosed : ∀ piece ∈ pieces.dropLast, Text.openBraces 0 piece = 0) :
    (cutAtBars 0 (Text.join " | ".toList pieces)).map Text.trim = pieces := by
  have hone : ∀ piece ∈ pieces, (cutAtBars 0 piece).map Text.trim = [piece] := by
    intro piece hpiece
    rw [cutAtBars_eq_singleton_iff.mpr (hinside piece hpiece), List.map_singleton,
      htrimmed piece hpiece]
  induction pieces with
  | nil => exact absurd rfl hne
  | cons piece pieces ih =>
    cases pieces with
    | nil =>
      have hjoin : Text.join " | ".toList [piece] = piece := by simp [Text.join]
      rw [hjoin]
      exact hone piece List.mem_cons_self
    | cons second pieces =>
      -- The blanks around the bar go to the pieces on either side, and are trimmed off them.
      have hblank : [' '].all Text.isBlank = true := rfl
      have hspaced : Text.openBraces 0 (piece ++ [' ']) = 0 := by
        rw [Text.openBraces_append, hclosed piece (by simp),
          Text.openBraces_of_all_isBlank hblank]
      have hjoin : Text.join " | ".toList (piece :: second :: pieces)
          = (piece ++ [' ']) ++ '|' :: ([' '] ++ Text.join " | ".toList (second :: pieces)) := by
        rw [Text.join_cons_cons]
        simp
      have hrest : ∀ other ∈ second :: pieces, other ∈ piece :: second :: pieces :=
        fun _ => List.mem_cons_of_mem piece
      rw [hjoin, cutAtBars_append_bar _ hspaced, List.map_append,
        map_trim_cutAtBars_append_right _ hblank, map_trim_cutAtBars_append_left hblank,
        hone piece List.mem_cons_self,
        ih (List.cons_ne_nil _ _) (fun other hmem => htrimmed other (hrest other hmem))
          (fun other hmem => hinside other (hrest other hmem))
          (fun other hmem => hclosed other (by
            rw [List.dropLast_cons_of_ne_nil (List.cons_ne_nil _ _)]
            exact List.mem_cons_of_mem piece hmem))
          (fun other hmem => hone other (hrest other hmem))]
      rfl

/-- Texts are the alternatives of the line in which they are written exactly if they are like
that. -/
theorem alternatives_join_iff {pieces : List Text} :
    alternatives (Text.join " | ".toList pieces) = pieces ↔ AreAlternatives pieces := by
  constructor
  · intro h
    rw [← h]
    exact areAlternatives_alternatives _
  · intro h
    by_cases hne : pieces = []
    · rw [hne]
      rfl
    · have hcut := map_trim_cutAtBars_join hne h.trimmed h.barsInside h.closed
      have hvisible : Text.trim (Text.join " | ".toList pieces) ≠ [] := by
        intro hblank
        -- Otherwise there would be one piece, with nothing in it.
        rw [← map_trim_cutAtBars_trim, hblank] at hcut
        exact h.visible hcut.symm
      rw [alternatives, if_neg hvisible, map_trim_cutAtBars_trim, hcut]

/-! ### Positions -/

/-- The alternatives of a trimmed line, from a position on. The first of them starts at `start`,
and `depth` braces are open at the position. The line is only cut where a character starts. -/
def sliceAtBars (line : Text) (depth start position : Nat) : Text → Option (List Text)
  | [] => do
    let piece ← Text.slice? line start (Text.utf8Length line)
    pure [Text.trim piece]
  | c :: rest =>
    if c = '|' ∧ depth = 0 then do
      let piece ← Text.slice? line start position
      let pieces ← sliceAtBars line 0 (position + 1) (position + c.utf8Size) rest
      pure (Text.trim piece :: pieces)
    else
      sliceAtBars line (Text.openBraces depth [c]) start (position + c.utf8Size) rest

/-- The alternatives of a right-hand side, cut out of it at positions. -/
def sliceAlternatives (source : Text) : Option (List Text) :=
  let line := Text.trim source
  if line = [] then some [] else sliceAtBars line 0 0 0 line

/-- A position is moved over a character. -/
theorem utf8Length_append_concat (before current : Text) (c : Char) :
    Text.utf8Length (before ++ (current ++ [c]))
      = Text.utf8Length (before ++ current) + c.utf8Size := by
  rw [← List.append_assoc, Text.utf8Length_append]
  rfl

/-- What is between the two positions belongs to the first piece, and behind them the line is cut
as by `cutAtBars`. -/
theorem sliceAtBars_eq {depth : Nat} (before current rest : Text) {piece : Text}
    {pieces : List Text} (hcut : cutAtBars depth rest = piece :: pieces) :
    sliceAtBars (before ++ (current ++ rest)) depth (Text.utf8Length before)
        (Text.utf8Length (before ++ current)) rest
      = some (((current ++ piece) :: pieces).map Text.trim) := by
  induction rest generalizing depth before current piece pieces with
  | nil =>
    obtain ⟨rfl, rfl⟩ : piece = [] ∧ pieces = [] := by simpa [cutAtBars, eq_comm] using hcut
    rw [sliceAtBars, Text.slice?_append_utf8Length]
    rfl
  | cons c rest ih =>
    rw [sliceAtBars]
    split
    · rename_i hbar
      obtain ⟨rfl, rfl⟩ := hbar
      -- The piece ends here, and the next one starts behind the bar.
      obtain ⟨first, others, hrest⟩ := List.exists_cons_of_ne_nil (cutAtBars_ne_nil 0 rest)
      have hlater := ih (before ++ (current ++ ['|'])) [] hrest
      have hline : (before ++ (current ++ ['|'])) ++ ([] ++ rest)
          = before ++ (current ++ '|' :: rest) := by simp
      have hsize : '|'.utf8Size = 1 := rfl
      rw [hline, List.append_nil, utf8Length_append_concat, hsize, List.nil_append] at hlater
      rw [cutAtBars_bar, hrest] at hcut
      obtain ⟨rfl, rfl⟩ := List.cons.inj hcut
      rw [Text.slice?_append, hsize, hlater, List.append_nil]
      rfl
    · rename_i hbar
      obtain ⟨part, parts, hinner⟩ := List.exists_cons_of_ne_nil
        (cutAtBars_ne_nil (Text.openBraces depth [c]) rest)
      have hlater := ih before (current ++ [c]) hinner
      have hline : before ++ ((current ++ [c]) ++ rest) = before ++ (current ++ c :: rest) := by
        simp
      rw [hline, utf8Length_append_concat] at hlater
      rw [cutAtBars_cons hbar hinner] at hcut
      obtain ⟨rfl, rfl⟩ := List.cons.inj hcut
      rw [hlater, List.append_assoc, List.singleton_append]

/-- No character is ever cut through, and the pieces are the alternatives. The loop over positions
takes checked slices, so that a wrong position would be seen as `none`. -/
theorem sliceAlternatives_eq (source : Text) :
    sliceAlternatives source = some (alternatives source) := by
  unfold sliceAlternatives alternatives
  dsimp only
  split
  · rfl
  · obtain ⟨piece, pieces, hcut⟩ := List.exists_cons_of_ne_nil
      (cutAtBars_ne_nil 0 (Text.trim source))
    rw [hcut]
    exact sliceAtBars_eq [] [] _ hcut

/-- Splitting into alternatives is stable. No character of a right-hand side is cut through; every
alternative is trimmed, has its bars inside of braces, and closes the braces that it opens, unless
it is the last one; there is none exactly if nothing but blanks is there; and written with bars
between them the alternatives are split in the same way again. -/
theorem alternatives_stable (source : Text) :
    sliceAlternatives source = some (alternatives source) ∧
      (∀ piece ∈ alternatives source, Text.trim piece = piece) ∧
      (∀ piece ∈ alternatives source, piece.BarsInside) ∧
      (∀ piece ∈ (alternatives source).dropLast, Text.openBraces 0 piece = 0) ∧
      (alternatives source = [] ↔ ∀ c ∈ source, Text.isBlank c = true) ∧
      alternatives (Text.join " | ".toList (alternatives source)) = alternatives source := by
  have hare := areAlternatives_alternatives source
  refine ⟨sliceAlternatives_eq source, hare.trimmed, hare.barsInside, hare.closed, ?_,
    alternatives_join_iff.mpr hare⟩
  rw [alternatives_eq_nil_iff, List.all_eq_true]

/-- Bars at both ends and next to each other, a brace too many on either side, a bar in a wildcard,
and blanks that take two and three bytes. -/
example : sliceAlternatives "\x7d | a\u00a0|| \x7bb|\u2003é\x7d|\u3000 \x7b c | ".toList
    = some ["\x7d".toList, "a".toList, [], "\x7bb|\u2003é\x7d".toList, "\x7b c |".toList] := by
  decide +kernel

end TaskGrammar
