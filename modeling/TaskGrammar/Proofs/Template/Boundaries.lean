import TaskGrammar.Proofs.Template.Notation

/-!
# `TaskGrammar.Proofs.Template.Boundaries`: where the scanner stops

The scanner takes as much as it can, so what it takes ends where the notation says that a segment
ends. A segment that was scanned is therefore read again when something else follows it, as long as
this is nothing that the segment would go on with.

* `isCanonical_of_scan?` / `isCanonical_of_mem_segments`: the scanner gives canonical segments,
  whatever the text.
* `ends_of_scan?`: what follows a segment does not belong to it.
* `scan?_source_append`: what the scanner has taken is taken again before any such text.
-/

set_option autoImplicit false

namespace TaskGrammar

/-- What is left behind the characters of a class does not start with one. -/
theorem Text.head?_dropWhile {p : Char → Bool} {t : Text} {c : Char}
    (h : (t.dropWhile p).head? = some c) : p c = false := by
  have hnot := List.head?_dropWhile_not p t
  rwa [h] at hnot

namespace Segment

/-! ### Wildcards -/

/-- The scanner stops at the first brace that closes more than is open, and not before it. The
induction is on the text, with the number of open braces general. -/
theorem scanParams_nested (depth : Nat) (t : Text) :
    (∀ start, start <+: (scanParams depth t).params → 0 ≤ depth + Text.braceDepth start) ∧
      ((scanParams depth t).terminated = true →
        depth + Text.braceDepth (scanParams depth t).params = 0) := by
  have hnil : Text.braceDepth [] = 0 := rfl
  induction t generalizing depth with
  | nil =>
    refine ⟨fun start hstart => ?_, nofun⟩
    rw [List.prefix_nil.mp hstart, hnil]
    omega
  | cons c t ih =>
    by_cases hstop : c = '}' ∧ depth = 0
    · obtain ⟨rfl, rfl⟩ := hstop
      refine ⟨fun start hstart => ?_, fun _ => rfl⟩
      rw [List.prefix_nil.mp hstart, hnil]
      omega
    · have hopen : 0 ≤ depth + Text.braceDepth [c] := by
        by_cases hclosing : c = '}'
        · have hdepth : depth ≠ 0 := fun h => hstop ⟨hclosing, h⟩
          rw [hclosing, show Text.braceDepth ['}'] = -1 from rfl]
          omega
        · have hcount : 0 ≤ Text.braceDepth [c] := by
            simp [Text.braceDepth, hclosing]
          omega
      -- The character is a parameter, and behind it the count goes on from `inner`.
      obtain ⟨inner, hinner, hcons⟩ := scanParams_cons_of_nested hopen
      obtain ⟨hnested, hbalanced⟩ := ih inner
      rw [hcons]
      constructor
      · intro start hstart
        rcases List.prefix_cons_iff.mp hstart with rfl | ⟨later, rfl, hlater⟩
        · rw [hnil]
          omega
        · have h := hnested later hlater
          rw [braceDepth_cons]
          omega
      · intro hterminated
        have h := hbalanced hterminated
        rw [braceDepth_cons]
        omega

/-- Parameters start with the first character that there is to read. -/
theorem head?_of_scanParams {depth : Nat} {t : Text} {c : Char}
    (h : (scanParams depth t).params.head? = some c) : t.head? = some c := by
  rw [← scanParams_append depth t, List.append_assoc, List.head?_append, h, Option.some_or]

/-- A wildcard that was scanned is canonical: its key is all that could be read as one, its
parameters start where neither blanks nor the key could go on, and they end where the braces say. -/
theorem canonical_of_scanWildcard {t : Text} {found : Wildcard}
    (h : (scanWildcard t).segment = .wildcard found) : found.Canonical := by
  simp only [scanWildcard, Segment.wildcard.injEq] at h
  subst h
  obtain ⟨body, hbody⟩ : ∃ body, t.dropWhile Text.isBlank = body := ⟨_, rfl⟩
  obtain ⟨hnested, hbalanced⟩ := scanParams_nested 0 (body.dropWhile Text.isLetter)
  rw [hbody]
  refine ⟨List.all_takeWhile, fun c hc => ?_, fun hkey c hc => ?_, fun start hstart => ?_,
    fun hterminated => ?_⟩
  · exact Text.head?_dropWhile (head?_of_scanParams hc)
  · -- Without a key, the parameters start right behind the blanks.
    have hrest : body.dropWhile Text.isLetter = body := by
      have hsplit := List.takeWhile_append_dropWhile (p := Text.isLetter) (l := body)
      rwa [show body.takeWhile Text.isLetter = [] from hkey, List.nil_append] at hsplit
    have hhead := head?_of_scanParams hc
    rw [hrest, ← hbody] at hhead
    exact Text.head?_dropWhile hhead
  · simpa using hnested start hstart
  · simpa using hbalanced hterminated

/-- What is left behind a wildcard without its closing brace is nothing. Such a wildcard takes all
of the template. -/
theorem rest_scanParams_eq_nil {depth : Nat} {t : Text}
    (h : (scanParams depth t).terminated = false) : (scanParams depth t).rest = [] := by
  induction t generalizing depth with
  | nil => rfl
  | cons c t ih =>
    rw [scanParams] at h ⊢
    split
    · rename_i hstop
      rw [if_pos hstop] at h
      cases h
    · rename_i hgo
      rw [if_neg hgo] at h
      exact ih h

/-! ### Segments -/

/-- The scanner gives canonical segments only. There is a case for each of its branches, and the
conditions of the branch are what makes the segment canonical. -/
theorem isCanonical_of_scan? {t : Text} {scanned : Scanned} (h : scan? t = some scanned) :
    scanned.segment.IsCanonical := by
  cases t with
  | nil => cases h
  | cons c t =>
    rw [scan?] at h
    split at h
    · rename_i hsigil
      cases h
      exact ⟨_, congrArg (· :: _) hsigil, List.all_takeWhile⟩
    · rename_i hsigil
      split at h
      · cases h
        exact canonical_of_scanWildcard rfl
      · rename_i hbrace
        cases h
        have hplain := List.all_eq_true.mp (List.all_takeWhile (p := isPlain) (l := t))
        refine ⟨List.cons_ne_nil _ _, fun hmem => ?_, fun hmem => ?_⟩
        · rcases List.mem_cons.mp hmem with heq | hmem
          · exact hsigil heq.symm
          · exact absurd (hplain _ hmem) (by decide)
        · rcases List.mem_cons.mp hmem with heq | hmem
          · exact hbrace heq.symm
          · exact absurd (hplain _ hmem) (by decide)

/-- So all segments of a template are canonical. -/
theorem isCanonical_of_mem_segments (template : Text) {segment : Segment}
    (h : segment ∈ segments template) : segment.IsCanonical := by
  cases hscan : scan? template with
  | none =>
    rw [scan?_eq_none_iff.mp hscan, segments_nil] at h
    cases h
  | some scanned =>
    rw [segments_of_scan? hscan] at h
    rcases List.mem_cons.mp h with rfl | hlater
    · exact isCanonical_of_scan? hscan
    · exact isCanonical_of_mem_segments scanned.rest hlater
termination_by template.length
decreasing_by exact length_rest_lt hscan

/-- What follows a segment is not part of it. A class of characters was read as far as it goes,
and a wildcard up to its brace or to the end. -/
theorem ends_of_scan? {t : Text} {scanned : Scanned} (h : scan? t = some scanned) :
    scanned.segment.Ends scanned.rest := by
  cases t with
  | nil => cases h
  | cons c t =>
    rw [scan?] at h
    split at h
    · cases h
      exact fun d hd => Text.head?_dropWhile hd
    · split at h
      · cases h
        show _ = true ∨ _ = []
        rw [or_iff_not_imp_left, Bool.not_eq_true]
        exact rest_scanParams_eq_nil
      · cases h
        exact fun d hd => Text.head?_dropWhile hd

/-- The scanner takes the same again, whatever comes then, if the segment would not go on with
it. -/
theorem scan?_source_append {t : Text} {scanned : Scanned} (h : scan? t = some scanned)
    {next : Text} (hends : scanned.segment.Ends next) :
    scan? (scanned.source ++ next) = some { scanned with rest := next } :=
  scan?_append_of_spells (isCanonical_of_scan? h) (spells_of_scan? h) hends

/-- Less may follow a segment than does: it ends before each beginning of what follows. So a
segment is still one if the template is cut behind it. -/
theorem Ends.of_isPrefix {segment : Segment} {start rest : Text} (h : segment.Ends rest)
    (hstart : start <+: rest) : segment.Ends start := by
  have hhead : ∀ c, start.head? = some c → rest.head? = some c := by
    intro c hc
    obtain ⟨later, rfl⟩ := hstart
    rw [List.head?_append, hc, Option.some_or]
  cases segment with
  | literal text => exact fun c hc => h c (hhead c hc)
  | reference id => exact fun c hc => h c (hhead c hc)
  | wildcard found =>
    refine h.imp_right fun hrest => ?_
    rw [hrest] at hstart
    exact List.prefix_nil.mp hstart

end Segment

end TaskGrammar
