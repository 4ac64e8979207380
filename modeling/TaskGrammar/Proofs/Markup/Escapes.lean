import TaskGrammar.Markup.Writer

/-!
# `TaskGrammar.Proofs.Markup.Escapes`: what is escaped can be resolved

The writer escapes the characters that mean something in markup, the reader resolves
references. For text and for attribute values alike the second undoes the first, and
neither way of escaping leaves a character that would end the text or the value.

* `resolve?_escapeInText` / `resolve?_escapeInValue`: resolving undoes escaping.
* `notMem_escapeInText` / `notMem_escapeInValue`: escaped text has no `<`, an escaped value
  no quotation mark.
-/

set_option autoImplicit false

namespace TaskGrammar.Markup

/-- Escaped characters are resolved one by one. What is asked of each is that it is resolved in
front of anything, so nothing that follows can go on with a reference that was begun. -/
theorem resolve?_flatMap {escape : Char → Text}
    (hescape : ∀ c rest,
      resolveFrom? none (escape c ++ rest) = (resolveFrom? none rest).map (c :: ·))
    (t : Text) : resolve? (t.flatMap escape) = some t := by
  unfold resolve?
  induction t with
  | nil => rfl
  | cons c t ih => rw [List.flatMap_cons, hescape, ih, Option.map_some]

/-- A character that is no ampersand stands for itself. -/
theorem resolveFrom?_cons {c : Char} (hc : c ≠ '&') (rest : Text) :
    resolveFrom? none (c :: rest) = (resolveFrom? none rest).map (c :: ·) := by
  rw [resolveFrom?]
  simp only [if_neg hc]

/-- In text, three characters are written as references and every other one stands for itself.
Each reference is resolved by computation, and the others are no ampersands. -/
theorem resolveFrom?_escapeInText (c : Char) (rest : Text) :
    resolveFrom? none (escapeInText c ++ rest) = (resolveFrom? none rest).map (c :: ·) := by
  unfold escapeInText
  split
  · rfl
  · rfl
  · rfl
  · rename_i hand
    exact resolveFrom?_cons hand rest

/-- In a value, both quotation marks are written as references as well, and the rest as in text. -/
theorem resolveFrom?_escapeInValue (c : Char) (rest : Text) :
    resolveFrom? none (escapeInValue c ++ rest) = (resolveFrom? none rest).map (c :: ·) := by
  unfold escapeInValue
  split
  · rfl
  · rfl
  · exact resolveFrom?_escapeInText c rest

/-- Escaped text is resolved to what it was. -/
theorem resolve?_escapeInText (t : Text) : resolve? (t.flatMap escapeInText) = some t :=
  resolve?_flatMap resolveFrom?_escapeInText t

/-- So is an escaped value. -/
theorem resolve?_escapeInValue (t : Text) : resolve? (t.flatMap escapeInValue) = some t :=
  resolve?_flatMap resolveFrom?_escapeInValue t

/-- No text, once escaped, has the character that starts a tag. It is one of those that are
written as references, and no reference has it. -/
theorem notMem_escapeInText (t : Text) : '<' ∉ t.flatMap escapeInText := by
  rw [List.mem_flatMap]
  rintro ⟨c, -, hc⟩
  unfold escapeInText at hc
  split at hc
  · revert hc; decide
  · revert hc; decide
  · revert hc; decide
  · rename_i hlt _ _
    exact hlt (List.mem_singleton.mp hc).symm

/-- No value, once escaped, has the mark that ends it. The single mark is escaped as well, but the
writer never ends a value with it. -/
theorem notMem_escapeInValue (t : Text) : '"' ∉ t.flatMap escapeInValue := by
  rw [List.mem_flatMap]
  rintro ⟨c, -, hc⟩
  unfold escapeInValue at hc
  split at hc
  · revert hc; decide
  · revert hc; decide
  · rename_i hquote
    unfold escapeInText at hc
    split at hc
    · revert hc; decide
    · revert hc; decide
    · revert hc; decide
    · exact hquote (List.mem_singleton.mp hc).symm

/-- A text stays empty, and no other becomes empty. So where nothing is written there was nothing
to write. -/
theorem flatMap_escapeInText_eq_nil_iff {t : Text} : t.flatMap escapeInText = [] ↔ t = [] := by
  cases t with
  | nil => simp
  | cons c t =>
    have hne : escapeInText c ≠ [] := by
      unfold escapeInText
      split <;> simp
    simp [hne]

end TaskGrammar.Markup
