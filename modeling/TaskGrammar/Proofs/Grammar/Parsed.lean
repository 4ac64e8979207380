import TaskGrammar.Grammar.Source

/-!
# `TaskGrammar.Proofs.Grammar.Parsed`: what holds of every grammar file

A file is applied to the empty grammar line by line. Whatever the empty grammar has and
every line preserves, the parsed grammar has. The theorems:

* `applyLines_preserves` / `parse_preserves`: this induction, once for all invariants.
* `Line.ofText_eq_rule`: the id of a rule line is the sigil and a name of identifier
  characters.
* `parse_ids_isNamed`: so are all ids of a parsed grammar.
* `Rule.exportId_inj`: without the sigil such ids are still distinct.
-/

set_option autoImplicit false

namespace TaskGrammar

/-- Whether an id is the sigil with a name after it, as rule lines give ids. -/
def Rule.IsNamed (id : Text) : Prop :=
  ∃ name, id = Segment.sigil :: name ∧ name ≠ [] ∧ ∀ c ∈ name, Text.isIdentifier c = true

/-- The exported id is what stands after the sigil. -/
theorem Rule.exportId_sigil (name : Text) : Rule.exportId (Segment.sigil :: name) = name := by
  show (if Segment.sigil = Segment.sigil then name else Segment.sigil :: name) = name
  rw [if_pos rfl]

/-- The id that a rule line gives starts with the sigil. -/
theorem Rule.IsNamed.head? {id : Text} (h : Rule.IsNamed id) : id.head? = some Segment.sigil := by
  obtain ⟨name, rfl, -, -⟩ := h
  rfl

/-- From such an id nothing but the sigil is lost when it is exported. -/
theorem Rule.sigil_exportId {id : Text} (h : id.head? = some Segment.sigil) :
    Segment.sigil :: exportId id = id := by
  obtain ⟨name, rfl⟩ := List.head?_eq_some_iff.mp h
  rw [exportId_sigil]

/-- Exporting ids that start with the sigil keeps them apart. -/
theorem Rule.exportId_inj {id id' : Text} (h : id.head? = some Segment.sigil)
    (h' : id'.head? = some Segment.sigil) (heq : exportId id = exportId id') : id = id' := by
  rw [← sigil_exportId h, ← sigil_exportId h', heq]

/-- A rule line names its rule with a sigil and at least one identifier character. -/
theorem Line.ofRule_eq_rule {t id source : Text} (h : Line.ofRule t = .rule id source) :
    Rule.IsNamed id := by
  unfold ofRule at h
  split at h
  · cases h
  · rename_i hname
    obtain ⟨rfl, -⟩ := Line.rule.inj h
    -- The name is what `takeWhile` has taken, and the empty one is malformed.
    have hall := List.all_takeWhile (p := Text.isIdentifier) (l := t)
    exact ⟨_, rfl, hname, List.all_eq_true.mp hall⟩
  · cases h

/-- A comment says nothing, or a value is found in it behind the word `grammar` and the word for a
name or a tier. -/
theorem Line.ofComment_cases (t : Text) :
    ofComment t = nothing ∨ ∃ header value, value ≠ [] ∧
      afterWord? "grammar".toList (t.dropWhile Text.isBlank) = some header ∧
      (afterWord? "name".toList header = some value ∧ ofComment t = name value ∨
        afterWord? "tier".toList header = some value ∧ ofComment t = tier value) := by
  -- A value that is empty is none, so that it is asked for in both branches.
  unfold ofComment
  split
  · exact .inl rfl
  · rename_i header hheader
    split
    · rename_i value hvalue
      split
      · exact .inl rfl
      · rename_i hne
        exact .inr ⟨header, value, hne, hheader, .inl ⟨hvalue, rfl⟩⟩
    · split
      · rename_i value hvalue
        split
        · exact .inl rfl
        · rename_i hne
          exact .inr ⟨header, value, hne, hheader, .inr ⟨hvalue, rfl⟩⟩
      · exact .inl rfl

/-- No line but one that starts with the sigil makes a rule. The form of the line is decided by
its first character. -/
theorem Line.ofRule_of_ofText {t id source : Text} (h : Line.ofText t = .rule id source) :
    ∃ rest, Text.trim t = Segment.sigil :: rest ∧ Line.ofRule rest = .rule id source := by
  unfold ofText ofTrimmed at h
  split at h
  · cases h
  · rename_i first rest htrim
    split at h
    · rcases ofComment_cases rest with hform | ⟨_, _, -, -, ⟨-, hform⟩ | ⟨-, hform⟩⟩ <;>
        cases hform.symm.trans h
    · split at h
      · cases h
      · split at h
        · rename_i hsigil
          exact ⟨rest, hsigil ▸ htrim, h⟩
        · cases h

/-- A line is read as a rule only with an id of this form. Nothing is said of its right-hand side,
which may be anything. -/
theorem Line.ofText_eq_rule {t id source : Text} (h : Line.ofText t = .rule id source) :
    Rule.IsNamed id := by
  obtain ⟨rest, -, hrule⟩ := ofRule_of_ofText h
  exact ofRule_eq_rule hrule

namespace Grammar

/-- What every line preserves, a run over lines preserves. The text of a line may be used, as
something may be known of all lines of the file. -/
theorem applyLines_preserves (Inv : Grammar → Prop) {number : Nat} {lines : List Text}
    {before after : Grammar}
    (hline : ∀ number before after, ∀ text ∈ lines, Inv before →
      applyLine number (.ofText text) before = .ok after → Inv after)
    (hbefore : Inv before) (h : applyLines number lines before = .ok after) : Inv after := by
  induction lines generalizing number before with
  | nil =>
    cases h
    exact hbefore
  | cons text rest ih =>
    rw [applyLines] at h
    split at h
    · cases h
    · rename_i next hnext
      refine ih (fun number before after text htext => ?_)
        (hline _ _ _ _ List.mem_cons_self hbefore hnext) h
      exact hline number before after text (List.mem_cons_of_mem _ htext)

/-- A grammar is itself with a root rule, and without one a fault under its name. -/
theorem requireRoot_eq (grammar : Grammar) :
    grammar.requireRoot = if grammar.contains rootId = true then .ok grammar
      else .error (.missingRoot grammar.name) := by
  unfold requireRoot checkRoot
  split <;> rfl

/-- What the empty grammar has and every line of a file preserves, the parsed grammar
has. -/
theorem parse_preserves (Inv : Grammar → Prop) {defaultName source : Text} {grammar : Grammar}
    (hempty : Inv (empty defaultName .unknown))
    (hline : ∀ number before after, ∀ text ∈ Text.lines source, Inv before →
      applyLine number (.ofText text) before = .ok after → Inv after)
    (h : parse defaultName source = .ok grammar) : Inv grammar := by
  unfold parse at h
  split at h
  · cases h
  · rename_i parsed hparsed
    rw [requireRoot_eq] at h
    split at h
    · exact Except.ok.inj h ▸ applyLines_preserves Inv hline hempty hparsed
    · cases h

/-- A line adds no id but that of a rule line. So every id of a grammar that was parsed stands on
a line of its file. -/
theorem applyLine_ids {number : Nat} {line : Line} {before after : Grammar} {id : Text}
    (h : applyLine number line before = .ok after) (hid : id ∈ after.rules.map Rule.id) :
    id ∈ before.rules.map Rule.id ∨ ∃ source, line = .rule id source := by
  cases line with
  | nothing =>
    cases h
    exact .inl hid
  | name value =>
    cases h
    exact .inl hid
  | tier value =>
    rw [applyLine] at h
    split at h
    · cases h
      exact .inl hid
    · cases h
  | rule other source =>
    cases h
    -- The table keeps its ids or has the line's id as a new last one.
    have hids : id ∈ (Rule.extend before.rules other (alternatives source)).map Rule.id := hid
    rw [Rule.ids_extend] at hids
    split at hids
    · exact .inl hids
    · rcases List.mem_append.mp hids with hold | hnew
      · exact .inl hold
      · exact .inr ⟨source, by rw [List.mem_singleton.mp hnew]⟩
  | malformed => cases h

/-- Every id of a parsed grammar is the sigil with a name after it. Only such an id is read from a
rule line, and nothing else adds one. -/
theorem parse_ids_isNamed {defaultName source : Text} {grammar : Grammar}
    (h : parse defaultName source = .ok grammar) :
    ∀ id ∈ grammar.rules.map Rule.id, Rule.IsNamed id := by
  refine parse_preserves
    (fun grammar => ∀ id ∈ grammar.rules.map Rule.id, Rule.IsNamed id)
    (by simp [empty]) ?_ h
  intro number before after text _ hbefore hline id hid
  rcases applyLine_ids hline hid with hold | ⟨rhs, hrule⟩
  · exact hbefore id hold
  · exact Line.ofText_eq_rule hrule

end Grammar

end TaskGrammar
