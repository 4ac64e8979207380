import TaskGrammar.Template.Segment

/-!
# `TaskGrammar.Proofs.Template.Scanning`: segments and the texts that spell them

A literal and a reference are written as what they are. A wildcard is written with its
braces, and with any blanks before its key, so it has many spellings: `Segment.Spells`.

* `spells_of_scan?`: what the scanner takes spells the segment that it gives.
* `segments_of_scan?`: the segments of a template are its first one and those of the rest.
* `exists_spelling`: what spells a segment of a template stands in the template.
-/

set_option autoImplicit false

namespace TaskGrammar

namespace Segment

/-- The texts that spell a segment. -/
def Spells : Segment → Text → Prop
  | literal text, source => source = text
  | reference id, source => source = id
  | wildcard found, source => ∃ blanks : Text, blanks.all Text.isBlank = true ∧
      source = '{' :: blanks ++ found.key ++ found.params ++ closing found.terminated

/-- The scanner takes a text that spells the segment. Nothing is normalised on the way, so a
template can be put together from its segments again. -/
theorem spells_of_scan? {t : Text} {scanned : Scanned} (h : scan? t = some scanned) :
    scanned.segment.Spells scanned.source := by
  cases t with
  | nil => simp [scan?] at h
  | cons c t =>
    rw [scan?] at h
    split at h
    · cases h
      rfl
    · split at h
      · cases h
        exact ⟨t.takeWhile Text.isBlank, List.all_takeWhile, rfl⟩
      · cases h
        rfl

/-- The scanner gives a segment as long as there is something to scan. -/
theorem scan?_eq_none_iff {t : Text} : scan? t = none ↔ t = [] := by
  cases t with
  | nil => simp [scan?]
  | cons c t =>
    rw [scan?]
    split
    · simp
    · split <;> simp

/-- The segments of a text are the one that is scanned first, at the offset of the text, and those
of the rest, further on by the bytes of the first one. -/
theorem locate_of_scan? (offset : Nat) {t : Text} {scanned : Scanned} (h : scan? t = some scanned) :
    locate offset t = (offset, scanned.segment) ::
      locate (offset + Text.utf8Length scanned.source) scanned.rest := by
  rw [locate]
  split
  · rename_i hnone
    rw [hnone] at h
    cases h
  · rename_i other hother
    rw [hother] at h
    cases h
    rfl

/-- Nothing is scanned at the end. -/
@[simp]
theorem locate_nil (offset : Nat) : locate offset [] = [] := by
  rw [locate]
  split
  · rfl
  · rename_i hsome
    cases hsome

/-- Where the template is does not change its segments. Positions are needed by the lint only,
which shows where a problem is. -/
theorem map_snd_locate (offset : Nat) (t : Text) : (locate offset t).map Prod.snd = segments t := by
  suffices h : ∀ offset' : Nat,
      (locate offset t).map Prod.snd = (locate offset' t).map Prod.snd from h 0
  induction offset, t using locate.induct with
  | case1 offset t hscan =>
    obtain rfl : t = [] := scan?_eq_none_iff.mp hscan
    intro offset'
    rw [locate_nil, locate_nil]
  | case2 offset t scanned hscan ih =>
    intro offset'
    rw [locate_of_scan? offset hscan, locate_of_scan? offset' hscan, List.map_cons, List.map_cons,
      ih]

/-- An empty template has no segments. -/
@[simp]
theorem segments_nil : segments [] = [] := by
  rw [segments, locate_nil, List.map_nil]

/-- The scanner goes on with what follows the first segment. -/
theorem segments_of_scan? {t : Text} {scanned : Scanned} (h : scan? t = some scanned) :
    segments t = scanned.segment :: segments scanned.rest := by
  rw [segments, locate_of_scan? 0 h, List.map_cons, map_snd_locate]

/-- What spells a segment of a template stands in the template. So the characters of a segment are
characters of the template. -/
theorem exists_spelling {segment : Segment} (template : Text) (h : segment ∈ segments template) :
    ∃ source, segment.Spells source ∧ source <:+: template := by
  cases hscan : scan? template with
  | none =>
    rw [scan?_eq_none_iff.mp hscan, segments_nil] at h
    cases h
  | some scanned =>
    rw [segments_of_scan? hscan] at h
    rcases List.mem_cons.mp h with rfl | hlater
    · have hsource : scanned.source <+: template := ⟨scanned.rest, source_append_rest hscan⟩
      exact ⟨scanned.source, spells_of_scan? hscan, hsource.isInfix⟩
    · have hrest : scanned.rest <:+ template := ⟨scanned.source, source_append_rest hscan⟩
      obtain ⟨source, hspells, hinfix⟩ := exists_spelling scanned.rest hlater
      exact ⟨source, hspells, hinfix.trans hrest.isInfix⟩
termination_by template.length
decreasing_by exact length_rest_lt hscan

end Segment

end TaskGrammar
