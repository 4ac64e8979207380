import TaskGrammar.Grammar.Lint
import TaskGrammar.Proofs.Grammar.Alternatives

/-!
# `TaskGrammar.Proofs.Grammar.Problems`: the problems that lie in the templates

The scanner counts braces for each wildcard by itself, from the brace that opens it on. The cutting
at bars counts once through the whole text and forgets about closing braces that are too many. For
every template the two agree on whether a wildcard is left open and on the brace that opens it, so
the problems of a template can be told without scanning its wildcards.

* `mem_rises_iff` / `pairwise_rises`: the braces at which the second count rises from zero, in the
  order of their positions.
* `unclosedAt?_of_scan?` / `unclosedAt?_of_open`: a segment with an end does not matter to what is
  left open behind it, and one without an end is what is left open.
* `templateProblems_eq`: the problems of a template.
* `lint_eq`: all problems.
-/

set_option autoImplicit false

namespace TaskGrammar

/-! ### Where the count rises -/

namespace Text

/-- The byte positions of the braces at which the count of open braces rises from zero to one.
There are `depth` open before the text, which is at `offset`. -/
def rises (depth offset : Nat) : Text → List Nat
  | [] => []
  | c :: t =>
    (if c = '{' ∧ depth = 0 then [offset] else []) ++
      rises (openBraces depth [c]) (offset + c.utf8Size) t

/-- Where the first of the braces stands that are open at the end of a text, if one is. -/
def unclosedAt? (offset : Nat) (t : Text) : Option Nat :=
  if 0 < openBraces 0 t then (rises 0 offset t).getLast? else none

/-- The positions in two parts are those in the first and those in the second, where the count
goes on and the offset has grown by the bytes of the first. -/
theorem rises_append (depth offset : Nat) (before after : Text) :
    rises depth offset (before ++ after) = rises depth offset before
      ++ rises (openBraces depth before) (offset + utf8Length before) after := by
  induction before generalizing depth offset with
  | nil => rfl
  | cons c before ih =>
    rw [List.cons_append, rises, rises, ih, List.append_assoc, ← openBraces_cons, utf8Length,
      Nat.add_assoc]

/-- The count rises at the opening braces before which none is open. Positions are in bytes, from
where the text starts. -/
theorem mem_rises_iff {depth offset position : Nat} {t : Text} :
    position ∈ rises depth offset t ↔ ∃ before after, t = before ++ '{' :: after ∧
      openBraces depth before = 0 ∧ offset + utf8Length before = position := by
  induction t generalizing depth offset with
  | nil =>
    refine iff_of_false (List.not_mem_nil) ?_
    rintro ⟨before, after, h, -⟩
    simp at h
  | cons c t ih =>
    rw [rises, List.mem_append, ih]
    constructor
    · rintro (hhere | ⟨before, after, rfl, hzero, hposition⟩)
      · split at hhere
        · rename_i hrise
          rw [List.mem_singleton.mp hhere]
          exact ⟨[], t, by rw [hrise.1]; rfl, hrise.2, rfl⟩
        · cases hhere
      · refine ⟨c :: before, after, rfl, hzero, ?_⟩
        rwa [utf8Length, ← Nat.add_assoc]
    · rintro ⟨before, after, ht, hzero, hposition⟩
      cases before with
      | nil =>
        rw [if_pos ⟨(List.cons.inj ht).1, hzero⟩]
        exact .inl (List.mem_singleton.mpr hposition.symm)
      | cons b before =>
        obtain ⟨rfl, rfl⟩ := List.cons.inj ht
        refine .inr ⟨before, after, rfl, hzero, ?_⟩
        rwa [utf8Length, ← Nat.add_assoc] at hposition

/-- The positions are listed from left to right, so that the last one is the greatest. -/
theorem pairwise_rises (depth offset : Nat) (t : Text) :
    (rises depth offset t).Pairwise (· ≤ ·) := by
  induction t generalizing depth offset with
  | nil => exact .nil
  | cons c t ih =>
    rw [rises, List.pairwise_append]
    refine ⟨?_, ih _ _, fun first hfirst later hlater => ?_⟩
    · split
      · exact List.pairwise_singleton _ _
      · exact .nil
    · have hoffset : first = offset := by
        split at hfirst
        · exact List.mem_singleton.mp hfirst
        · cases hfirst
      obtain ⟨before, after, -, -, rfl⟩ := mem_rises_iff.mp hlater
      omega

/-- At the opening brace at a byte position the count rises from zero, and at none behind it. -/
structure IsLastRise (t : Text) (offset : Nat) : Prop where
  rises : ∃ before after, t = before ++ '{' :: after ∧ openBraces 0 before = 0 ∧
    utf8Length before = offset
  last : ∀ before after, t = before ++ '{' :: after → openBraces 0 before = 0 →
    utf8Length before ≤ offset

/-- What is left open starts at such a brace. It is the last one of the list, and the list is
sorted. -/
theorem isLastRise_of_unclosedAt? {t : Text} {offset : Nat} (h : unclosedAt? 0 t = some offset) :
    t.IsLastRise offset := by
  unfold unclosedAt? at h
  split at h
  · obtain ⟨earlier, hrises⟩ := List.getLast?_eq_some_iff.mp h
    have hsorted := pairwise_rises 0 0 t
    rw [hrises, List.pairwise_append] at hsorted
    constructor
    · have hmem : offset ∈ rises 0 0 t := hrises ▸ List.mem_append_right _ List.mem_cons_self
      simpa only [Nat.zero_add] using mem_rises_iff.mp hmem
    · intro before after ht hzero
      have hmem : utf8Length before ∈ rises 0 0 t :=
        mem_rises_iff.mpr ⟨before, after, ht, hzero, Nat.zero_add _⟩
      rw [hrises] at hmem
      rcases List.mem_append.mp hmem with hearlier | hlast
      · exact hsorted.2.2 _ hearlier _ List.mem_cons_self
      · exact Nat.le_of_eq (List.mem_singleton.mp hlast)
  · cases h

/-- As long as a brace stays open the count does not rise from zero. So a wildcard without an end
has no rise behind its own. -/
theorem rises_of_open {depth : Nat} {t : Text} (offset : Nat)
    (h : ∀ start, start <+: t → 0 < openBraces depth start) : rises depth offset t = [] := by
  rw [List.eq_nil_iff_forall_not_mem]
  intro position hmem
  obtain ⟨before, after, rfl, hzero, -⟩ := mem_rises_iff.mp hmem
  have hopen := h before (List.prefix_append _ _)
  omega

/-- Without an opening brace it does not rise at all. -/
theorem rises_of_notMem {t : Text} (depth offset : Nat) (h : '{' ∉ t) :
    rises depth offset t = [] := by
  rw [List.eq_nil_iff_forall_not_mem]
  intro position hmem
  obtain ⟨before, after, rfl, -, -⟩ := mem_rises_iff.mp hmem
  exact h (List.mem_append_right _ List.mem_cons_self)

/-- If a brace is open at the end, the count has risen. It starts at zero and grows only at an
opening brace. -/
theorem rises_ne_nil {t : Text} (offset : Nat) (h : 0 < openBraces 0 t) :
    rises 0 offset t ≠ [] := by
  induction t generalizing offset with
  | nil => cases h
  | cons c t ih =>
    rw [rises]
    by_cases hc : c = '{'
    · rw [if_pos ⟨hc, rfl⟩]
      exact List.cons_ne_nil _ _
    · -- Any other character leaves the count at zero.
      have hzero : openBraces 0 [c] = 0 := openBraces_of_notMem (by simpa using Ne.symm hc)
      rw [openBraces_cons, hzero] at h
      rw [hzero]
      exact List.append_ne_nil_of_right_ne_nil _ (ih _ h)

/-- Something is left open exactly if the count ends above zero. Then the count has risen, so that
there is a last place where it did. -/
theorem isSome_unclosedAt?_iff {offset : Nat} {t : Text} :
    (unclosedAt? offset t).isSome = true ↔ 0 < openBraces 0 t := by
  unfold unclosedAt?
  split
  · rename_i hopen
    simpa [hopen] using rises_ne_nil offset hopen
  · rename_i hclosed
    simp [hclosed]

end Text

namespace Segment

open Text

/-! ### Segments and the count -/

/-- A segment with an end: all but the wildcards that are not closed. -/
def IsClosed (segment : Segment) : Prop :=
  ∀ found, segment = wildcard found → found.terminated = true

/-- Behind a segment with an end no brace is open. This is taken from the agreement of both
counts, which is known only of a segment that something follows. -/
theorem openBraces_of_isClosed {t : Text} {scanned : Scanned} (h : scan? t = some scanned)
    (hclosed : scanned.segment.IsClosed) : openBraces 0 scanned.source = 0 := by
  -- A brace would not belong to the segment, so it is scanned again with one behind it.
  have hends : scanned.segment.Ends ['{'] := by
    cases hsegment : scanned.segment with
    | literal text | reference id =>
      intro c hc
      rw [← Option.some.inj hc]
      rfl
    | wildcard found => exact .inl (hclosed found hsegment)
  exact (counts_of_scan? (scan?_source_append h hends)).behind (List.cons_ne_nil _ _)

/-- What is left open behind a segment with an end is left open by the rest. So the problems of a
template are found by going from segment to segment. -/
theorem unclosedAt?_of_scan? (offset : Nat) {t : Text} {scanned : Scanned}
    (h : scan? t = some scanned) (hclosed : scanned.segment.IsClosed) :
    unclosedAt? offset t = unclosedAt? (offset + utf8Length scanned.source) scanned.rest := by
  have hzero := openBraces_of_isClosed h hclosed
  rw [← source_append_rest h, unclosedAt?, unclosedAt?, openBraces_append, rises_append, hzero]
  split
  · rename_i hopen
    exact List.getLast?_append_of_ne_nil _ (rises_ne_nil _ hopen)
  · rfl

/-- A wildcard that is not closed is left open, and its brace is the last one at which the count
rises. Nothing comes behind it. -/
theorem unclosedAt?_of_open (offset : Nat) {t : Text} {scanned : Scanned} {found : Wildcard}
    (h : scan? t = some scanned) (hsegment : scanned.segment = wildcard found)
    (hopen : found.terminated = false) :
    unclosedAt? offset t = some offset ∧ scanned.rest = [] := by
  have hspells := spells_of_scan? h
  have hcanonical := isCanonical_of_scan? h
  have hends := ends_of_scan? h
  rw [hsegment] at hspells hcanonical hends
  obtain ⟨blanks, hblanks, hsource⟩ := hspells
  have hrest : scanned.rest = [] := hends.resolve_left (by simp [hopen])
  have ht : t = ('{' :: blanks ++ found.key) ++ found.params := by
    rw [← source_append_rest h, hrest, hsource, hopen, closing]
    simp
  have hfront : '{' ∉ blanks ++ found.key := by
    rw [List.mem_append, not_or]
    exact ⟨notMem_of_all hblanks (by decide), notMem_of_all hcanonical.letters (by decide)⟩
  have hone := openBraces_front hcanonical hblanks
  -- Within the parameters this brace stays open.
  have hparams : ∀ start, start <+: found.params → 0 < openBraces 1 start := by
    intro start hstart
    have hcount := openBraces_params hcanonical hstart
    have hnested := hcanonical.nested start hstart
    omega
  refine ⟨?_, hrest⟩
  rw [ht, unclosedAt?, openBraces_append, hone, if_pos (hparams _ (List.prefix_refl _)),
    rises_append, hone, rises_of_open _ hparams, List.append_nil, List.cons_append, rises,
    rises_of_notMem _ _ hfront]
  rfl

end Segment

namespace Grammar

/-! ### Problems -/

/-- The problem of a segment at a byte position, if it has one. -/
def segmentProblem? (grammar : Grammar) (rule : Rule) (template : Text) :
    Nat × Segment → Option Fault
  | (_, .literal _) => none
  | (_, .reference id) =>
    if grammar.contains id then none else some (.undefinedReference rule.id id)
  | (offset, .wildcard found) =>
    if found.terminated then none else some (.unterminatedWildcard template offset)

variable (grammar : Grammar)

/-- The references of a template to rules that there are not. -/
def undefinedReferences (template : Text) : List Text :=
  (Segment.references template).filter fun id => !grammar.contains id

/-- A segment with an end has a problem only if it is one of these references. The other problem
of a template is a wildcard without an end, and this is its last segment. -/
theorem map_undefinedReferences_of_scan? (rule : Rule) (template : Text) (offset : Nat) {t : Text}
    {scanned : Segment.Scanned} (h : Segment.scan? t = some scanned)
    (hclosed : scanned.segment.IsClosed) :
    (grammar.undefinedReferences t).map (Fault.undefinedReference rule.id)
      = (grammar.segmentProblem? rule template (offset, scanned.segment)).toList ++
        (grammar.undefinedReferences scanned.rest).map (Fault.undefinedReference rule.id) := by
  unfold undefinedReferences Segment.references
  rw [Segment.segments_of_scan? h]
  cases hsegment : scanned.segment with
  | literal text => rfl
  | reference id =>
    show List.map _ (List.filter _ (id :: List.filterMap _ _)) = _
    rw [List.filter_cons, segmentProblem?]
    cases grammar.contains id <;> rfl
  | wildcard found =>
    rw [segmentProblem?, hclosed found hsegment]
    rfl

/-- The problems of the segments of a text, wherever it stands in its template: the references
first, then what is left open. The induction is on the segments. -/
theorem filterMap_segmentProblem? (rule : Rule) (template : Text) (offset : Nat) (t : Text) :
    (Segment.locate offset t).filterMap (grammar.segmentProblem? rule template)
      = (grammar.undefinedReferences t).map (Fault.undefinedReference rule.id) ++
        ((Text.unclosedAt? offset t).map (Fault.unterminatedWildcard template)).toList := by
  induction offset, t using Segment.locate.induct with
  | case1 offset t hscan =>
    obtain rfl : t = [] := Segment.scan?_eq_none_iff.mp hscan
    simp [undefinedReferences, Segment.references, Text.unclosedAt?, Text.openBraces]
  | case2 offset t scanned hscan ih =>
    rw [Segment.locate_of_scan? offset hscan, List.filterMap_cons]
    by_cases hclosed : scanned.segment.IsClosed
    · rw [ih, grammar.map_undefinedReferences_of_scan? rule template offset hscan hclosed,
        Segment.unclosedAt?_of_scan? offset hscan hclosed, List.append_assoc]
      cases grammar.segmentProblem? rule template (offset, scanned.segment) <;> rfl
    · -- The scan ends with a wildcard that is not closed.
      obtain ⟨found, hsegment, hopen⟩ : ∃ found, scanned.segment = .wildcard found ∧
          found.terminated = false := by
        simpa [Segment.IsClosed] using hclosed
      obtain ⟨hunclosed, hrest⟩ := Segment.unclosedAt?_of_open offset hscan hsegment hopen
      have hreferences : grammar.undefinedReferences t = [] := by
        rw [undefinedReferences, Segment.references, Segment.segments_of_scan? hscan, hsegment,
          hrest, Segment.segments_nil]
        rfl
      have hproblem : grammar.segmentProblem? rule template (offset, .wildcard found)
          = some (.unterminatedWildcard template offset) := by
        rw [segmentProblem?, hopen]
        rfl
      rw [hunclosed, hreferences, hrest, hsegment, hproblem, Segment.locate_nil]
      rfl

/-- The problems of a template are its references to rules that there are not, in order, and then
the wildcard that is left open, if there is one. -/
theorem templateProblems_eq (rule : Rule) (template : Text) :
    grammar.templateProblems rule template
      = (grammar.undefinedReferences template).map (Fault.undefinedReference rule.id) ++
        ((Text.unclosedAt? 0 template).map (Fault.unterminatedWildcard template)).toList := by
  rw [← grammar.filterMap_segmentProblem? rule template 0 template, templateProblems]
  refine List.filterMap_congr fun located _ => ?_
  obtain ⟨offset, segment⟩ := located
  cases segment <;> rfl

/-- Bytes are counted, and neither the brace that closes nothing nor the inner one matters. -/
example : templateProblems (empty [] .unknown) ⟨rootId, []⟩
      "é\x7d $go \x7bnear \x7bname\x7d".toList
    = [.undefinedReference rootId "$go".toList,
      .unterminatedWildcard "é\x7d $go \x7bnear \x7bname\x7d".toList 8] := by
  decide +kernel

/-- A grammar is checked rule by rule, in the order of the table: first the id of a rule, then its
templates, one after the other, and at the very end the cycle, if there is one. In a template each
reference to an id without a rule is a problem, from left to right. Then it is a problem if the
count of braces ends above zero. The position is that of the last brace at which the count rose
from zero to one. -/
theorem lint_eq :
    (grammar.lint = (grammar.rules.flatMap fun rule =>
        (if isReservedId (Rule.exportId rule.id) = true then [.reservedRuleId rule.id] else []) ++
          rule.replacements.flatMap fun template =>
            ((Segment.references template).filter fun id => !grammar.contains id).map
                (Fault.undefinedReference rule.id) ++
              ((Text.unclosedAt? 0 template).map (Fault.unterminatedWildcard template)).toList) ++
        (grammar.findCycle?.map Fault.cyclicGrammar).toList) ∧
    (∀ template, (Text.unclosedAt? 0 template).isSome = true ↔ 0 < Text.openBraces 0 template) ∧
    ∀ template offset, Text.unclosedAt? 0 template = some offset →
      Text.IsLastRise template offset := by
  refine ⟨?_, fun template => Text.isSome_unclosedAt?_iff, fun template offset h =>
    Text.isLastRise_of_unclosedAt? h⟩
  rw [lint]
  congr 1
  refine List.flatMap_congr fun rule _ => ?_
  rw [ruleProblems]
  congr 1
  exact List.flatMap_congr fun template _ => grammar.templateProblems_eq rule template

end Grammar

end TaskGrammar
