import TaskGrammar.Proofs.Grammar.Bars
import TaskGrammar.Proofs.Template.Boundaries
import TaskGrammar.Proofs.Text.Lines

/-!
# `TaskGrammar.Proofs.Grammar.Alternatives`: alternatives and segments

A right-hand side is read twice, by two readers who count braces in their own ways. Cutting at bars
counts through the whole line and forgets about closing braces that are too many. Scanning starts to
count at the brace that opens a wildcard, and stops when it is closed. They agree on what is inside
of a wildcard, so it does not matter which of them reads first.

* `counts_of_scan?`: behind a segment no brace is open, and at a bar in it one is exactly if the
  segment is a wildcard.
* `separates_iff_openBraces`, `barInLiteral_iff_openBraces`: what a bar is to either reader.
* `flatMap_segments_cutAtBars`: the segments of the pieces are the pieces of the segments.
* `alternatives_follow_segments`: the two readings of a right-hand side.
-/

set_option autoImplicit false

namespace TaskGrammar

/-! ### Open braces -/

namespace Text

/-- As long as no brace is closed that is not open, the count is the exact one. The cut counts
with natural numbers, which stop at zero, and the scan of a wildcard with integers. -/
theorem openBraces_of_nested {depth : Nat} {t : Text}
    (h : ∀ start, start <+: t → 0 ≤ depth + braceDepth start) :
    (openBraces depth t : Int) = depth + braceDepth t := by
  induction t generalizing depth with
  | nil => simp [openBraces, braceDepth]
  | cons c t ih =>
    have hopen := h [c] (List.prefix_append [c] t)
    have hstep : (openBraces depth [c] : Int) = depth + braceDepth [c] := by
      by_cases hopening : c = '{'
      · simp [openBraces, braceDepth, hopening]
      · by_cases hclosing : c = '}'
        · subst hclosing
          have hone : braceDepth ['}'] = -1 := rfl
          have hless : openBraces depth ['}'] = depth - 1 := rfl
          rw [hone] at hopen
          rw [hone, hless]
          omega
        · simp [openBraces, braceDepth, hopening, hclosing]
    have hrest : ∀ start, start <+: t → 0 ≤ (openBraces depth [c] : Int) + braceDepth start := by
      intro start hstart
      have hlonger := h (c :: start) ((List.prefix_cons_inj c).mpr hstart)
      rw [Segment.braceDepth_cons] at hlonger
      omega
    -- The prefixes of the rest are those of the text with its first character taken off.
    rw [openBraces_cons, ih hrest, hstep, Segment.braceDepth_cons c t, Int.add_assoc]

/-- A text without braces leaves the count alone. -/
theorem openBraces_of_notMem_notMem {depth : Nat} {t : Text} (hopening : '{' ∉ t)
    (hclosing : '}' ∉ t) : openBraces depth t = depth := by
  have hzero : ∀ start, start <+: t → braceDepth start = 0 := by
    intro start hstart
    rw [braceDepth, List.count_eq_zero.mpr fun hmem => hopening (hstart.subset hmem),
      List.count_eq_zero.mpr fun hmem => hclosing (hstart.subset hmem)]
    rfl
  have hcount : (openBraces depth t : Int) = depth + braceDepth t := by
    refine openBraces_of_nested fun start hstart => ?_
    rw [hzero start hstart]
    omega
  rw [hzero t (List.prefix_refl t)] at hcount
  omega

end Text

namespace Segment

/-- The count outside and inside of a segment: none is open behind it, if anything follows, and at
a bar in it some brace is open exactly if it is a wildcard. -/
structure Counts (scanned : Scanned) : Prop where
  behind : scanned.rest ≠ [] → Text.openBraces 0 scanned.source = 0
  atBar : ∀ before after, scanned.source = before ++ '|' :: after →
    (Text.openBraces 0 before = 0 ↔ ∃ text, scanned.segment = .literal text)

/-- A character that is not of a class is not among characters of the class. -/
theorem notMem_of_all {p : Char → Bool} {t : Text} (h : t.all p = true) {c : Char}
    (hc : p c = false) : c ∉ t := by
  intro hmem
  rw [List.all_eq_true.mp h c hmem] at hc
  cases hc

/-- A mark that is not in a first text is in the second one, if it is in both together. So a bar
of a segment can be looked for behind the parts of the segment that have none. -/
theorem exists_of_append_eq {mark : Char} {first second before after : Text} (h : mark ∉ first)
    (heq : first ++ second = before ++ mark :: after) :
    ∃ start, before = first ++ start ∧ second = start ++ mark :: after := by
  rcases List.append_eq_append_iff.mp heq with ⟨start, hbefore, hsecond⟩ | ⟨start, hfirst, hafter⟩
  · exact ⟨start, hbefore, hsecond⟩
  · cases start with
    | nil => exact ⟨[], by rw [hfirst, List.append_nil, List.append_nil], hafter.symm⟩
    | cons c start =>
      rw [(List.cons.inj hafter).1] at h
      exact absurd (hfirst ▸ List.mem_append_right _ List.mem_cons_self) h

/-- Up to its parameters a wildcard opens one brace. Blanks and letters count for nothing. -/
theorem openBraces_front {found : Wildcard} (h : found.Canonical) {blanks : Text}
    (hblanks : blanks.all Text.isBlank = true) :
    Text.openBraces 0 ('{' :: blanks ++ found.key) = 1 := by
  have hfront : ∀ c, Text.isBlank c = false → Text.isLetter c = false →
      c ∉ blanks ++ found.key := by
    intro c hblank hletter
    rw [List.mem_append, not_or]
    exact ⟨notMem_of_all hblanks hblank, notMem_of_all h.letters hletter⟩
  rw [List.cons_append, Text.openBraces_cons]
  exact Text.openBraces_of_notMem_notMem (hfront '{' (by decide) (by decide))
    (hfront '}' (by decide) (by decide))

/-- Within its parameters this brace stays open, since the scan would have ended the wildcard at
the place where it is closed. -/
theorem openBraces_params {found : Wildcard} (h : found.Canonical) {start : Text}
    (hstart : start <+: found.params) :
    (Text.openBraces 1 start : Int) = 1 + Text.braceDepth start := by
  refine Text.openBraces_of_nested fun first hfirst => ?_
  have hzero := h.nested first (hfirst.trans hstart)
  omega

/-- Both counts agree on a segment that was scanned. There is a case for each kind of segment, and
only in a wildcard a brace is open between its ends. -/
theorem counts_of_scan? {t : Text} {scanned : Scanned} (h : scan? t = some scanned) :
    Counts scanned := by
  have hspells := spells_of_scan? h
  have hcanonical := isCanonical_of_scan? h
  have hends := ends_of_scan? h
  obtain ⟨source, segment, rest⟩ := scanned
  cases segment with
  | literal text =>
    obtain rfl : source = text := hspells
    obtain ⟨-, -, hbrace⟩ := hcanonical
    refine ⟨fun _ => Text.openBraces_of_notMem hbrace, fun before after hsource => ?_⟩
    have hbefore : '{' ∉ before := fun hmem =>
      hbrace ((show source = _ from hsource) ▸ List.mem_append_left _ hmem)
    exact ⟨fun _ => ⟨source, rfl⟩, fun _ => Text.openBraces_of_notMem hbefore⟩
  | reference id =>
    obtain rfl : source = id := hspells
    obtain ⟨name, rfl, hname⟩ := hcanonical
    have hnone : ∀ c, c ≠ sigil → Text.isIdentifier c = false → c ∉ sigil :: name := by
      intro c hsigil hidentifier
      rw [List.mem_cons, not_or]
      exact ⟨hsigil, notMem_of_all hname hidentifier⟩
    refine ⟨fun _ => Text.openBraces_of_notMem (hnone '{' (by decide) (by decide)),
      fun before after hsource => ?_⟩
    -- There is no bar in a reference.
    have hbar := hnone '|' (by decide) (by decide)
    rw [show sigil :: name = _ from hsource] at hbar
    exact absurd (List.mem_append_right _ List.mem_cons_self) hbar
  | wildcard found =>
    obtain ⟨blanks, hblanks, rfl⟩ := hspells
    constructor
    · intro hrest
      have hterminated : found.terminated = true := hends.resolve_right hrest
      have hparams := openBraces_params hcanonical (List.prefix_refl found.params)
      rw [hcanonical.balanced hterminated] at hparams
      have hone : Text.openBraces 1 found.params = 1 := by
        omega
      rw [Text.openBraces_append, Text.openBraces_append, openBraces_front hcanonical hblanks,
        hone, hterminated]
      rfl
    · intro before after hsource
      have hfront : '|' ∉ '{' :: blanks ++ found.key := by
        rw [List.cons_append, List.mem_cons, List.mem_append, not_or, not_or]
        exact ⟨by decide, notMem_of_all hblanks (by decide),
          notMem_of_all hcanonical.letters (by decide)⟩
      rw [List.append_assoc _ found.params] at hsource
      obtain ⟨start, rfl, hbehind⟩ := exists_of_append_eq hfront hsource
      -- The bar is not the closing brace, so it stands in the parameters.
      have hstart : start <+: found.params := by
        rcases List.append_eq_append_iff.mp hbehind with ⟨later, -, hclosing⟩ | ⟨later, hparams, -⟩
        · have hmem : '|' ∈ closing found.terminated :=
            hclosing ▸ List.mem_append_right _ List.mem_cons_self
          cases hterminated : found.terminated <;> simp [closing, hterminated] at hmem
        · exact ⟨later, hparams.symm⟩
      have hcount := openBraces_params hcanonical hstart
      have hopen := hcanonical.nested start hstart
      rw [Text.openBraces_append, openBraces_front hcanonical hblanks]
      constructor
      · intro hzero
        omega
      · rintro ⟨text, htext⟩
        cases htext

end Segment

/-! ### What a bar is -/

/-- The bar between two texts separates alternatives: it stands between two of the pieces into
which the whole is cut. -/
def Text.Separates (before after : Text) : Prop :=
  ∃ left right, left ≠ [] ∧ right ≠ [] ∧ cutAtBars 0 (before ++ '|' :: after) = left ++ right ∧
    Text.join ['|'] left = before ∧ Text.join ['|'] right = after

/-- The bar between two texts stands in a literal of the whole, by its byte position. -/
def Segment.BarInLiteral (before after : Text) : Prop :=
  ∃ start left right, (start, .literal (left ++ '|' :: right)) ∈
      Segment.locate 0 (before ++ '|' :: after) ∧
    start + Text.utf8Length left = Text.utf8Length before

/-- A bar separates if no brace is open at it. Whether it separates is said with the pieces of the
cut, whether a brace is open is counted from the front. -/
theorem separates_iff_openBraces {before after : Text} :
    Text.Separates before after ↔ Text.openBraces 0 before = 0 := by
  constructor
  · rintro ⟨left, right, hleft, hright, hcut, rfl, -⟩
    exact openBraces_join_of_cutAtBars hcut hleft hright
  · intro h
    exact ⟨cutAtBars 0 before, cutAtBars 0 after, cutAtBars_ne_nil 0 before,
      cutAtBars_ne_nil 0 after, cutAtBars_append_bar after h, join_cutAtBars 0 before,
      join_cutAtBars 0 after⟩

namespace Segment

/-- No segment starts before the text does. So positions behind a first segment are told from its
own. -/
theorem le_of_mem_locate {offset start : Nat} {segment : Segment} {t : Text}
    (h : (start, segment) ∈ locate offset t) : offset ≤ start := by
  induction offset, t using locate.induct with
  | case1 offset t hscan =>
    rw [scan?_eq_none_iff.mp hscan, locate_nil] at h
    cases h
  | case2 offset t scanned hscan ih =>
    rw [locate_of_scan? offset hscan] at h
    rcases List.mem_cons.mp h with hfirst | hlater
    · exact Nat.le_of_eq (congrArg Prod.fst hfirst).symm
    · have hle := ih hlater
      omega

/-- A bar stands in a literal if no brace is open at it. The induction is on the segments; the bar
stands in the first one of them or in one of the others. -/
theorem exists_literal_iff_openBraces (offset : Nat) {t before after : Text}
    (ht : t = before ++ '|' :: after) :
    (∃ start left right, (start, literal (left ++ '|' :: right)) ∈ locate offset t ∧
        start + Text.utf8Length left = offset + Text.utf8Length before)
      ↔ Text.openBraces 0 before = 0 := by
  induction offset, t using locate.induct generalizing before with
  | case1 offset t hscan =>
    rw [scan?_eq_none_iff.mp hscan] at ht
    exact absurd ht.symm (List.append_ne_nil_of_right_ne_nil _ (List.cons_ne_nil _ _))
  | case2 offset t scanned hscan ih =>
    have hcounts := counts_of_scan? hscan
    have hspells := spells_of_scan? hscan
    have hsplit := (source_append_rest hscan).trans ht
    have hbar : ∀ later : Text, 0 < Text.utf8Length ('|' :: later) := fun later =>
      Text.utf8Length_pos_iff.mpr (List.cons_ne_nil _ _)
    rw [locate_of_scan? offset hscan]
    by_cases hmem : ∃ later, scanned.source = before ++ '|' :: later
    · obtain ⟨later, hsource⟩ := hmem
      rw [hcounts.atBar before later hsource]
      constructor
      · rintro ⟨start, left, right, hlocated, hposition⟩
        rcases List.mem_cons.mp hlocated with hfirst | hrest
        · exact ⟨_, (congrArg Prod.snd hfirst).symm⟩
        · -- The other segments start behind the bar.
          have hle := le_of_mem_locate hrest
          have hlength := hbar later
          rw [hsource, Text.utf8Length_append] at hle
          omega
      · rintro ⟨text, htext⟩
        rw [htext] at hspells
        refine ⟨offset, before, later, List.mem_cons.mpr (.inl ?_), rfl⟩
        rw [htext, ← hsource, show scanned.source = text from hspells]
    · -- The bar is behind the first segment.
      obtain ⟨start, rfl, hrest⟩ : ∃ start, before = scanned.source ++ start ∧
          scanned.rest = start ++ '|' :: after := by
        rcases List.append_eq_append_iff.mp hsplit with hbehind | ⟨inner, hsource, hrest⟩
        · exact hbehind
        · cases inner with
          | nil => exact ⟨[], by simpa using hsource.symm, hrest.symm⟩
          | cons c inner =>
            rw [← (List.cons.inj hrest).1] at hsource
            exact absurd ⟨inner, hsource⟩ hmem
      have hclosed := hcounts.behind (by simp [hrest])
      rw [Text.openBraces_append, hclosed, ← ih hrest, Text.utf8Length_append, Nat.add_assoc]
      constructor
      · rintro ⟨other, left, right, hlocated, hposition⟩
        rcases List.mem_cons.mp hlocated with hfirst | hlater
        · -- A bar in the first segment would be further to the left.
          obtain ⟨rfl, hsegment⟩ := Prod.mk.inj hfirst
          rw [← hsegment] at hspells
          have hlength := hbar right
          rw [show scanned.source = left ++ '|' :: right from hspells, Text.utf8Length_append]
            at hposition
          omega
        · exact ⟨other, left, right, hlater, hposition⟩
      · rintro ⟨other, left, right, hlater, hposition⟩
        exact ⟨other, left, right, List.mem_cons_of_mem _ hlater, hposition⟩

/-- A bar is part of a literal exactly where no brace is open by the count. The count knows
nothing of segments, and this is what makes it cut where it should. -/
theorem barInLiteral_iff_openBraces {before after : Text} :
    BarInLiteral before after ↔ Text.openBraces 0 before = 0 := by
  rw [← exists_literal_iff_openBraces 0 (rfl : before ++ '|' :: after = _), Nat.zero_add]
  rfl

/-! ### Segments of pieces -/

/-- The literals with the given texts. Without a text there is no literal. -/
def literals (texts : List Text) : List Segment :=
  (texts.filter (· ≠ [])).map literal

/-- What is left of a segment when a literal is cut at its bars. -/
def cutAtBars : Segment → List Segment
  | literal text => literals (Text.splitOn '|' text)
  | reference id => [reference id]
  | wildcard found => [wildcard found]

/-- A text without references and wildcards is one literal, if it is there. What follows must not
be plain at its start, or the literal would go on. -/
theorem segments_append_of_plain {text rest : Text} (hsigil : sigil ∉ text) (hbrace : '{' ∉ text)
    (hrest : ∀ c, rest.head? = some c → isPlain c = false) :
    segments (text ++ rest) = literals [text] ++ segments rest := by
  by_cases hne : text = []
  · simp [literals, hne]
  · have hcanonical : (literal text).IsCanonical := ⟨hne, hsigil, hbrace⟩
    rw [segments_of_scan? (scan?_append_of_spells hcanonical rfl hrest)]
    simp [literals, hne]

/-- A literal is cut with the text that follows it: its last piece goes on with the first piece of
that text. -/
theorem flatMap_segments_literal {text rest : Text} (hsigil : sigil ∉ text) (hbrace : '{' ∉ text)
    (hrest : ∀ c, rest.head? = some c → isPlain c = false) :
    (TaskGrammar.cutAtBars 0 (text ++ rest)).flatMap segments
      = (literal text).cutAtBars ++ (TaskGrammar.cutAtBars 0 rest).flatMap segments := by
  -- By recursion on the bars of the literal: what is in front of the first one is a piece.
  by_cases hbar : '|' ∈ text
  · obtain ⟨piece, later, htext, hpiece⟩ := List.eq_append_cons_of_mem hbar
    have hshort : later.length < text.length := by
      rw [htext, List.length_append, List.length_cons]
      omega
    rw [htext, List.mem_append, List.mem_cons, not_or, not_or] at hsigil hbrace
    have hone : TaskGrammar.cutAtBars 0 piece = [piece] := by
      refine cutAtBars_eq_singleton_iff.mpr fun before after heq => ?_
      exact absurd (heq ▸ List.mem_append_right _ List.mem_cons_self) hpiece
    have hfirst : segments (piece ++ []) = literals [piece] ++ segments [] :=
      segments_append_of_plain hsigil.1 hbrace.1 nofun
    rw [List.append_nil, segments_nil, List.append_nil] at hfirst
    have hlater := flatMap_segments_literal hsigil.2.2 hbrace.2.2 hrest
    have hpieces : (literal (piece ++ '|' :: later)).cutAtBars
        = literals [piece] ++ (literal later).cutAtBars := by
      rw [cutAtBars, cutAtBars, Text.splitOn_append_cons _ hpiece, literals, literals, literals,
        ← List.map_append, ← List.filter_append, List.singleton_append]
    rw [htext, List.append_assoc, List.cons_append,
      cutAtBars_append_bar _ (Text.openBraces_of_notMem hbrace.1), List.flatMap_append, hone,
      List.flatMap_singleton, hfirst, hlater, hpieces, List.append_assoc]
  · obtain ⟨part, parts, hcut⟩ := List.exists_cons_of_ne_nil (cutAtBars_ne_nil 0 rest)
    have hinside : ∀ start later, text = start ++ '|' :: later → 0 < Text.openBraces 0 start := by
      intro start later heq
      exact absurd (heq ▸ List.mem_append_right _ List.mem_cons_self) hbar
    have hcut' : TaskGrammar.cutAtBars (Text.openBraces 0 text) rest = part :: parts := by
      rw [Text.openBraces_of_notMem hbrace, hcut]
    have hends : (literal text).Ends rest := hrest
    have hpart := hends.of_isPrefix (isPrefix_of_cutAtBars hcut)
    rw [cutAtBars_append hinside hcut', hcut, List.flatMap_cons, List.flatMap_cons,
      segments_append_of_plain hsigil hbrace hpart, cutAtBars, Text.splitOn_of_notMem hbar,
      List.append_assoc]
termination_by text.length
decreasing_by exact hshort

/-- A reference and a wildcard stay whole: the first piece has them, and goes on with the first
piece of what follows them. -/
theorem flatMap_segments_of_not_literal {t : Text} {scanned : Scanned}
    (h : scan? t = some scanned) (hliteral : ∀ text, scanned.segment ≠ literal text) :
    (TaskGrammar.cutAtBars 0 t).flatMap segments
      = scanned.segment :: (TaskGrammar.cutAtBars 0 scanned.rest).flatMap segments := by
  have hcounts := counts_of_scan? h
  obtain ⟨part, parts, hcut⟩ := List.exists_cons_of_ne_nil (cutAtBars_ne_nil 0 scanned.rest)
  have hinside : ∀ start later, scanned.source = start ++ '|' :: later →
      0 < Text.openBraces 0 start := by
    intro start later hsource
    refine Nat.pos_of_ne_zero fun hzero => ?_
    obtain ⟨text, htext⟩ := (hcounts.atBar start later hsource).mp hzero
    exact hliteral text htext
  have hcut' : TaskGrammar.cutAtBars (Text.openBraces 0 scanned.source) scanned.rest
      = part :: parts := by
    by_cases hrest : scanned.rest = []
    · -- At the end it does not matter how many braces are open.
      rw [hrest] at hcut ⊢
      exact hcut
    · rw [hcounts.behind hrest, hcut]
  have hagain := scan?_source_append h ((ends_of_scan? h).of_isPrefix (isPrefix_of_cutAtBars hcut))
  rw [← source_append_rest h, cutAtBars_append hinside hcut', hcut, List.flatMap_cons,
    List.flatMap_cons, segments_of_scan? hagain, List.cons_append]

/-- The segments of the pieces of a text are the pieces of its segments. It is the same whether a
line is cut first and scanned afterwards, or the other way round. -/
theorem flatMap_segments_cutAtBars (t : Text) :
    (TaskGrammar.cutAtBars 0 t).flatMap segments = (segments t).flatMap cutAtBars := by
  cases hscan : scan? t with
  | none =>
    rw [scan?_eq_none_iff.mp hscan, segments_nil]
    exact (List.flatMap_singleton ..).trans segments_nil
  | some scanned =>
    have hrest := flatMap_segments_cutAtBars scanned.rest
    rw [segments_of_scan? hscan, List.flatMap_cons, ← hrest]
    cases hsegment : scanned.segment with
    | literal text =>
      have hcanonical := isCanonical_of_scan? hscan
      have hspells := spells_of_scan? hscan
      have hends := ends_of_scan? hscan
      rw [hsegment] at hcanonical hspells hends
      rw [← source_append_rest hscan, show scanned.source = text from hspells]
      exact flatMap_segments_literal hcanonical.2.1 hcanonical.2.2 hends
    | reference id =>
      rw [flatMap_segments_of_not_literal hscan (by simp [hsegment]), hsegment]
      rfl
    | wildcard found =>
      rw [flatMap_segments_of_not_literal hscan (by simp [hsegment]), hsegment]
      rfl
termination_by t.length
decreasing_by exact length_rest_lt hscan

end Segment

/-- The two readings of a right-hand side. Its alternatives are the trimmed pieces, which make it up
again with the bars between them. A bar separates exactly if it stands in a literal, so none that
stands inside of a wildcard does. And the segments of the pieces, one piece after the other, are the
segments of the whole with its literals cut at the bars: cutting first changes nothing of what is
scanned. -/
theorem alternatives_follow_segments {source : Text} (htrim : Text.trim source = source)
    (hne : source ≠ []) :
    alternatives source = (cutAtBars 0 source).map Text.trim ∧
    Text.join ['|'] (cutAtBars 0 source) = source ∧
    (∀ before after, source = before ++ '|' :: after →
      (Text.Separates before after ↔ Segment.BarInLiteral before after)) ∧
    (cutAtBars 0 source).flatMap Segment.segments
      = (Segment.segments source).flatMap Segment.cutAtBars := by
  refine ⟨?_, join_cutAtBars 0 source, fun before after _ => ?_,
    Segment.flatMap_segments_cutAtBars source⟩
  · rw [alternatives, htrim, if_neg hne]
  · rw [separates_iff_openBraces, Segment.barInLiteral_iff_openBraces]

/-- A line with a brace that closes nothing, a reference right before a bar, bars in nested braces,
an empty alternative, and a bar behind a brace that is never closed. -/
def crowded : Text :=
  "a\x7d $x|b \x7bn|\x7bm\x7d|\x7d || c \x7bo|p".toList

/-- Three of its bars separate. The first one does and stands in a literal, the second one does
neither, and the segments come out the same either way. -/
theorem alternatives_follow_segments_crowded :
    Text.trim crowded = crowded ∧ crowded ≠ [] ∧
    alternatives crowded = ["a\x7d $x".toList, "b \x7bn|\x7bm\x7d|\x7d".toList, [],
      "c \x7bo|p".toList] ∧
    (Text.Separates "a\x7d $x".toList "b \x7bn|\x7bm\x7d|\x7d || c \x7bo|p".toList ∧
      Segment.BarInLiteral "a\x7d $x".toList "b \x7bn|\x7bm\x7d|\x7d || c \x7bo|p".toList) ∧
    (¬ Text.Separates "a\x7d $x|b \x7bn".toList "\x7bm\x7d|\x7d || c \x7bo|p".toList ∧
      ¬ Segment.BarInLiteral "a\x7d $x|b \x7bn".toList "\x7bm\x7d|\x7d || c \x7bo|p".toList) ∧
    (cutAtBars 0 crowded).flatMap Segment.segments
      = (Segment.segments crowded).flatMap Segment.cutAtBars := by
  have htrim : Text.trim crowded = crowded := by decide +kernel
  have hne : crowded ≠ [] := by decide
  obtain ⟨halternatives, -, hbars, hsegments⟩ := alternatives_follow_segments htrim hne
  have hfirst := hbars "a\x7d $x".toList "b \x7bn|\x7bm\x7d|\x7d || c \x7bo|p".toList (by decide)
  have hsecond := hbars "a\x7d $x|b \x7bn".toList "\x7bm\x7d|\x7d || c \x7bo|p".toList (by decide)
  have hseparates : Text.Separates "a\x7d $x".toList
      "b \x7bn|\x7bm\x7d|\x7d || c \x7bo|p".toList :=
    separates_iff_openBraces.mpr (by decide)
  have hjoins : ¬ Text.Separates "a\x7d $x|b \x7bn".toList "\x7bm\x7d|\x7d || c \x7bo|p".toList :=
    fun h => absurd (separates_iff_openBraces.mp h) (by decide)
  refine ⟨htrim, hne, ?_, ⟨hseparates, hfirst.mp hseparates⟩,
    ⟨hjoins, fun h => hjoins (hsecond.mpr h)⟩, hsegments⟩
  rw [halternatives]
  decide +kernel

end TaskGrammar
