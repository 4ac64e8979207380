import TaskGrammar.Template.Wildcard

/-!
# `TaskGrammar.Proofs.Template.Remark`: the remark of a wildcard

The parameters of a wildcard may have a remark, the text behind the marker `meta:`. This file
says which text that is without a search.

* `Text.after?_eq_some_iff`: what is found is what follows the first occurrence of the marker.
* `Wildcard.metadata_eq_some_iff` / `Wildcard.metadata_eq_none_iff`: the remark is what follows
  the first marker, without the blanks around it, unless nothing else is there.
-/

set_option autoImplicit false

namespace TaskGrammar

namespace Text

/-- The text `rest` follows the first occurrence of a marker: behind every other occurrence
there is less. -/
structure Follows (marker t rest : Text) : Prop where
  occurs : ∃ before, t = before ++ marker ++ rest
  first : ∀ before later, t = before ++ marker ++ later → later.length ≤ rest.length

/-- Only one text follows the first occurrence. Of two first occurrences each comes before the
other or is the other. -/
theorem Follows.unique {marker t rest rest' : Text} (h : Follows marker t rest)
    (h' : Follows marker t rest') : rest = rest' := by
  obtain ⟨before, hbefore⟩ := h.occurs
  obtain ⟨before', hbefore'⟩ := h'.occurs
  have hle := h'.first before rest hbefore
  have hge := h.first before' rest' hbefore'
  have hlength : rest.length = rest'.length := by omega
  exact (List.append_inj' (hbefore.symm.trans hbefore') hlength).2

/-- Nothing starts before the start of the text. -/
theorem follows_append (marker later : Text) : Follows marker (marker ++ later) later := by
  refine ⟨⟨[], rfl⟩, fun before other hother => ?_⟩
  have hlength := congrArg List.length hother
  simp only [List.length_append] at hlength
  omega

/-- An occurrence further on stays the first one, if none starts here. This is the step of the
search. -/
theorem Follows.cons {marker t rest : Text} {c : Char} (h : Follows marker t rest)
    (hmark : ¬ marker <+: c :: t) : Follows marker (c :: t) rest := by
  obtain ⟨⟨before, hbefore⟩, hfirst⟩ := h
  refine ⟨⟨c :: before, by rw [hbefore]; rfl⟩, fun other later hlater => ?_⟩
  cases other with
  | nil =>
    refine absurd ?_ hmark
    rw [hlater]
    exact List.prefix_append _ _
  | cons d other =>
    rw [List.cons_append, List.cons_append] at hlater
    exact hfirst other later (List.cons.inj hlater).2

/-- What the search finds follows the marker, and no occurrence comes before. The induction is on
the text: where the marker does not start, the search goes on. -/
theorem follows_of_after? {marker t rest : Text} (h : after? marker t = some rest) :
    Follows marker t rest := by
  have hstart : ∀ {t : Text}, marker.isPrefixOf t = true →
      some (t.drop marker.length) = some rest → Follows marker t rest := by
    intro t hmark hdrop
    obtain ⟨later, rfl⟩ := List.isPrefixOf_iff_prefix.mp hmark
    rw [List.drop_left, Option.some.injEq] at hdrop
    exact hdrop ▸ follows_append marker later
  induction t with
  | nil =>
    unfold after? at h
    split at h
    · rename_i hmark
      exact hstart hmark h
    · cases h
  | cons c t ih =>
    unfold after? at h
    split at h
    · rename_i hmark
      exact hstart hmark h
    · rename_i hmark
      exact (ih h).cons fun hp => hmark (List.isPrefixOf_iff_prefix.mpr hp)

/-- A marker that occurs is found. It may be found earlier than where it is known to be, so
nothing is said of what follows it. -/
theorem exists_after?_append (marker : Text) (before later : Text) :
    ∃ rest, after? marker (before ++ marker ++ later) = some rest := by
  induction before with
  | nil =>
    have hmark : marker.isPrefixOf (marker ++ later) = true :=
      List.isPrefixOf_iff_prefix.mpr (List.prefix_append _ _)
    unfold after?
    rw [List.nil_append, if_pos hmark]
    exact ⟨_, rfl⟩
  | cons c before ih =>
    rw [List.cons_append, List.cons_append]
    unfold after?
    split
    · exact ⟨_, rfl⟩
    · exact ih

/-- The search gives what follows the first occurrence of the marker, and only this. One direction
is the run of the search, the other one is that it finds something and that there is only one
first occurrence. -/
theorem after?_eq_some_iff {marker t rest : Text} :
    after? marker t = some rest ↔ Follows marker t rest := by
  constructor
  · intro h
    exact follows_of_after? h
  · intro h
    obtain ⟨before, hbefore⟩ := h.occurs
    obtain ⟨found, hfound⟩ := exists_after?_append marker before rest
    rw [← hbefore] at hfound
    rw [hfound, (follows_of_after? hfound).unique h]

end Text

namespace Wildcard

/-- The remark of a wildcard: the text behind the first `meta:` of its parameters, without the
blanks around it. It is not empty. -/
def Carries (wildcard : Wildcard) (remark : Text) : Prop :=
  remark ≠ [] ∧ ∃ rest, Text.Follows "meta:".toList wildcard.params rest ∧ Text.trim rest = remark

/-- A wildcard has a remark exactly if it carries it. A marker with nothing but blanks behind it
makes no remark. -/
theorem metadata_eq_some_iff {wildcard : Wildcard} {remark : Text} :
    wildcard.metadata = some remark ↔ wildcard.Carries remark := by
  unfold metadata Carries
  simp only [← Text.after?_eq_some_iff]
  cases Text.after? "meta:".toList wildcard.params with
  | none => simp
  | some rest =>
    by_cases hblank : Text.trim rest = []
    · simp only [hblank, if_true, reduceCtorEq, Option.some.injEq, exists_eq_left', false_iff]
      rintro ⟨hne, rfl⟩
      exact hne rfl
    · simp only [hblank, if_false, Option.some.injEq, exists_eq_left']
      constructor
      · rintro rfl
        exact ⟨hblank, rfl⟩
      · rintro ⟨-, rfl⟩
        rfl

/-- It has none if there is no marker in its parameters, or nothing but blanks behind the first
one. -/
theorem metadata_eq_none_iff {wildcard : Wildcard} :
    wildcard.metadata = none ↔ ∀ remark, ¬ wildcard.Carries remark := by
  simp only [← metadata_eq_some_iff, Option.eq_none_iff_forall_ne_some, ne_eq]

end Wildcard

end TaskGrammar
