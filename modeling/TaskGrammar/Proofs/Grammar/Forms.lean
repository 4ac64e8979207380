import Mathlib.Data.List.Basic
import TaskGrammar.Proofs.Grammar.Parsed
import TaskGrammar.Proofs.Text.Lines

/-!
# `TaskGrammar.Proofs.Grammar.Forms`: the forms of a line

A line of a grammar file is read from its first character on: whether it starts like a comment,
which word follows, and what is behind the blanks after it. Here the forms that a line can have are
written down as texts put together from their parts, and it is proved that the reader tells them
apart.

* `afterWord?_eq_some_iff`: what the reader finds behind a word and some blanks.
* `ofComment_eq_name_iff` / `ofComment_eq_tier_iff`: a comment is more than a comment exactly if it
  is a header, and then has one value.
* `ofRule_eq_rule_iff`: a rule line has one id and one right-hand side.
* `ofTrimmed_eq_iff`: each trimmed line has exactly one of the forms, and the reader says which.
-/

set_option autoImplicit false

namespace TaskGrammar

namespace Line

/-! ### The forms -/

/-- A header gives the value of one word. Behind the semicolon come the word `grammar`, this word
and the value, with blanks between each two of them. The value is there and has no blanks around
it. -/
structure IsHeader (word value t : Text) : Prop where
  spelled : ∃ first second third : Text, first.all Text.isBlank = true ∧
    second.all Text.isBlank = true ∧ third.all Text.isBlank = true ∧ second ≠ [] ∧ third ≠ [] ∧
    t = ';' :: (first ++ ("grammar".toList ++ (second ++ (word ++ (third ++ value)))))
  visible : value ≠ []
  trimmed : Text.trim value = value

/-- A comment starts with a semicolon or a hash and is no header. -/
structure IsComment (t : Text) : Prop where
  starts : t.head? = some ';' ∨ t.head? = some '#'
  notName : ∀ value, ¬ IsHeader "name".toList value t
  notTier : ∀ value, ¬ IsHeader "tier".toList value t

/-- A rule line has an id, perhaps blanks, an equals sign, and a right-hand side. -/
def IsRule (id source t : Text) : Prop :=
  Rule.IsNamed id ∧ ∃ blanks : Text, blanks.all Text.isBlank = true ∧
    t = id ++ (blanks ++ '=' :: source)

/-- What a line says, without the blanks around it: one constructor for each of its forms. -/
inductive Says : Text → Line → Prop
  | blank : Says [] nothing
  | comment {t : Text} (form : IsComment t) : Says t nothing
  | name {t value : Text} (form : IsHeader "name".toList value t) : Says t (name value)
  | tier {t value : Text} (form : IsHeader "tier".toList value t) : Says t (tier value)
  | rule {t id source : Text} (form : IsRule id source t) : Says t (rule id source)
  | malformed {t : Text} (visible : t ≠ []) (semicolon : t.head? ≠ some ';')
      (hash : t.head? ≠ some '#') (noRule : ∀ id source, ¬ IsRule id source t) : Says t malformed

/-! ### Headers -/

/-- What follows a word is what stands behind the blanks after it, of which there is one at
least. -/
theorem afterWord?_eq_some_iff {word t rest : Text} :
    afterWord? word t = some rest ↔ ∃ blanks : Text, t = word ++ (blanks ++ rest) ∧
      blanks.all Text.isBlank = true ∧ blanks ≠ [] ∧
      ∀ c, rest.head? = some c → Text.isBlank c = false := by
  unfold afterWord?
  constructor
  · -- What was found is behind the word and the blanks that were passed over.
    intro h
    split at h
    · rename_i hfound
      rw [Bool.and_eq_true] at hfound
      obtain ⟨behind, rfl⟩ := List.isPrefixOf_iff_prefix.mp hfound.1
      rw [List.drop_left] at h hfound
      rw [← Option.some.inj h]
      refine ⟨behind.takeWhile Text.isBlank, ?_, List.all_takeWhile, ?_, fun c hc => ?_⟩
      · rw [List.takeWhile_append_dropWhile]
      · cases behind with
        | nil => exact absurd hfound.2 (by simp)
        | cons c behind =>
          have hc : Text.isBlank c = true := by simpa using hfound.2
          rw [List.takeWhile_cons_of_pos hc]
          exact List.cons_ne_nil _ _
      · have hnot := List.head?_dropWhile_not Text.isBlank behind
        rwa [hc] at hnot
    · cases h
  · rintro ⟨blanks, rfl, hblanks, hne, hrest⟩
    obtain ⟨c, blanks, rfl⟩ := List.exists_cons_of_ne_nil hne
    have hword : word.isPrefixOf (word ++ (c :: blanks ++ rest)) = true :=
      List.isPrefixOf_iff_prefix.mpr (List.prefix_append _ _)
    have hc : Text.isBlank c = true := List.all_eq_true.mp hblanks c List.mem_cons_self
    rw [List.drop_left, hword, (Text.takeWhile_append_of_head hblanks hrest).2]
    simp [hc]

/-- Where the reader has found a value behind both words, there is a header. The line is trimmed,
so its value ends in a character that is no blank. -/
theorem isHeader_of_afterWord? {word t header value : Text}
    (htrim : Text.trim (';' :: t) = ';' :: t)
    (hheader : afterWord? "grammar".toList (t.dropWhile Text.isBlank) = some header)
    (hvalue : afterWord? word header = some value) (hne : value ≠ []) :
    IsHeader word value (';' :: t) := by
  obtain ⟨second, hbehind, hsecond, hsecond', -⟩ := afterWord?_eq_some_iff.mp hheader
  obtain ⟨third, rfl, hthird, hthird', hstart⟩ := afterWord?_eq_some_iff.mp hvalue
  have ht : t = t.takeWhile Text.isBlank ++
      ("grammar".toList ++ (second ++ (word ++ (third ++ value)))) := by
    rw [← hbehind, List.takeWhile_append_dropWhile]
  refine ⟨⟨t.takeWhile Text.isBlank, second, third, List.all_takeWhile, hsecond, hthird, hsecond',
    hthird', congrArg _ ht⟩, hne, Text.trim_eq_self_iff.mpr ⟨hstart, fun c hc => ?_⟩⟩
  -- The value ends where the line does, and the line is trimmed.
  refine (Text.trim_eq_self_iff.mp htrim).2 c ?_
  rw [ht]
  simp only [← List.append_assoc, ← List.cons_append]
  rw [List.getLast?_append_of_ne_nil _ hne, hc]

/-- In a header the reader finds both words and the value. The blanks between them are passed over
completely, since neither a word nor the value starts with one. -/
theorem IsHeader.exists_afterWord? {word value t : Text} (h : IsHeader word value (';' :: t))
    (hword : ∃ c, word.head? = some c ∧ Text.isBlank c = false) :
    ∃ third : Text, afterWord? "grammar".toList (t.dropWhile Text.isBlank)
        = some (word ++ (third ++ value)) ∧
      afterWord? word (word ++ (third ++ value)) = some value := by
  obtain ⟨first, second, third, hfirst, hsecond, hthird, hsecond', hthird', ht⟩ := h.spelled
  obtain ⟨c, hc, hblank⟩ := hword
  refine ⟨third, ?_, ?_⟩
  · rw [(List.cons.inj ht).2, (Text.takeWhile_append_of_head hfirst ?_).2,
      afterWord?_eq_some_iff]
    · refine ⟨second, rfl, hsecond, hsecond', fun d hd => ?_⟩
      rw [List.head?_append, hc, Option.some_or, Option.some.injEq] at hd
      exact hd ▸ hblank
    · intro d hd
      rw [← Option.some.inj hd]
      rfl
  · rw [afterWord?_eq_some_iff]
    exact ⟨third, rfl, hthird, hthird', (Text.trim_eq_self_iff.mp h.trimmed).1⟩

/-- A comment gives a name exactly if it is the header of this name. One direction goes through
the cases of the reader, the other one computes what it does with the header. -/
theorem ofComment_eq_name_iff {t value : Text} (htrim : Text.trim (';' :: t) = ';' :: t) :
    ofComment t = name value ↔ IsHeader "name".toList value (';' :: t) := by
  constructor
  · intro h
    rcases ofComment_cases t with
      hform | ⟨header, found, hne, hheader, ⟨hfound, hform⟩ | ⟨-, hform⟩⟩
    · cases hform.symm.trans h
    · cases hform.symm.trans h
      exact isHeader_of_afterWord? htrim hheader hfound hne
    · cases hform.symm.trans h
  · intro h
    obtain ⟨third, hheader, hvalue⟩ := h.exists_afterWord? ⟨'n', rfl, by decide⟩
    unfold ofComment
    simp only [hheader, hvalue, if_neg h.visible]

/-- A comment gives a tier exactly if it is the header of this tier. -/
theorem ofComment_eq_tier_iff {t value : Text} (htrim : Text.trim (';' :: t) = ';' :: t) :
    ofComment t = tier value ↔ IsHeader "tier".toList value (';' :: t) := by
  constructor
  · intro h
    rcases ofComment_cases t with
      hform | ⟨header, found, hne, hheader, ⟨-, hform⟩ | ⟨hfound, hform⟩⟩
    · cases hform.symm.trans h
    · cases hform.symm.trans h
    · cases hform.symm.trans h
      exact isHeader_of_afterWord? htrim hheader hfound hne
  · intro h
    obtain ⟨third, hheader, hvalue⟩ := h.exists_afterWord? ⟨'t', rfl, by decide⟩
    -- The word is not the other one, which the reader looks for first.
    have hother : afterWord? "name".toList ("tier".toList ++ (third ++ value)) = none := rfl
    unfold ofComment
    simp only [hheader, hother, hvalue, if_neg h.visible]

/-- A comment that is neither says nothing. What is not a header is whatever the two lemmas before
this one leave. -/
theorem ofComment_eq_nothing_iff {t : Text} (htrim : Text.trim (';' :: t) = ';' :: t) :
    ofComment t = nothing ↔ IsComment (';' :: t) := by
  constructor
  · intro h
    refine ⟨.inl rfl, fun value hvalue => ?_, fun value hvalue => ?_⟩
    · rw [(ofComment_eq_name_iff htrim).mpr hvalue] at h
      cases h
    · rw [(ofComment_eq_tier_iff htrim).mpr hvalue] at h
      cases h
  · rintro ⟨-, hname, htier⟩
    rcases ofComment_cases t with hform | ⟨_, value, -, -, ⟨-, hform⟩ | ⟨-, hform⟩⟩
    · exact hform
    · exact absurd ((ofComment_eq_name_iff htrim).mp hform) (hname value)
    · exact absurd ((ofComment_eq_tier_iff htrim).mp hform) (htier value)

/-! ### Rule lines -/

/-- An identifier has no blanks. Both classes are given by code ranges, which are disjoint but for
the underscore, and this is no blank. -/
theorem isIdentifier_eq_false_of_isBlank {c : Char} (h : Text.isBlank c = true) :
    Text.isIdentifier c = false := by
  cases hc : Text.isIdentifier c with
  | false => rfl
  | true =>
    have hidentifier : (((decide (c.val ≥ 65 ∧ c.val ≤ 90) ||
        (decide (c.val ≥ 97) && decide (c.val ≤ 122))) ||
          (decide (c.val ≥ 48) && decide (c.val ≤ 57))) || c == '_') = true := hc
    have hrange : ((65 ≤ c.toNat ∧ c.toNat ≤ 90) ∨ (97 ≤ c.toNat ∧ c.toNat ≤ 122) ∨
        (48 ≤ c.toNat ∧ c.toNat ≤ 57)) ∨ c = '_' := by
      simpa [UInt32.le_iff_toNat_le, or_assoc] using hidentifier
    rcases hrange with hrange | rfl
    · simp only [Text.isBlank, Bool.or_eq_true, Bool.and_eq_true, decide_eq_true_eq,
        beq_iff_eq] at h
      omega
    · exact absurd h (by decide)

/-- A line behind its sigil is a rule, or it is malformed. -/
theorem ofRule_cases (t : Text) :
    ofRule t = malformed ∨ ∃ id source, ofRule t = rule id source := by
  unfold ofRule
  split
  · exact .inl rfl
  · exact .inr ⟨_, _, rfl⟩
  · exact .inl rfl

/-- A line is read as a rule exactly if it is the line of this rule. The name reaches as far as it
can, which is up to the blanks or the equals sign, so there is only one way to read it. -/
theorem ofRule_eq_rule_iff {t id source : Text} :
    ofRule t = rule id source ↔ IsRule id source (Segment.sigil :: t) := by
  constructor
  · intro h
    refine ⟨ofRule_eq_rule h, ?_⟩
    unfold ofRule at h
    split at h
    · cases h
    · rename_i hbehind _
      obtain ⟨rfl, rfl⟩ := Line.rule.inj h
      refine ⟨(t.dropWhile Text.isIdentifier).takeWhile Text.isBlank, List.all_takeWhile, ?_⟩
      rw [← hbehind, List.takeWhile_append_dropWhile, List.cons_append,
        List.takeWhile_append_dropWhile]
    · cases h
  · rintro ⟨⟨name, rfl, hne, hname⟩, blanks, hblanks, ht⟩
    obtain rfl := (List.cons.inj ht).2
    -- The name ends at a blank or at the equals sign, and neither belongs to a name.
    have hstart : ∀ c, (blanks ++ '=' :: source).head? = some c → Text.isIdentifier c = false := by
      intro c hc
      cases blanks with
      | nil =>
        rw [← Option.some.inj hc]
        rfl
      | cons d blanks =>
        rw [← Option.some.inj hc]
        exact isIdentifier_eq_false_of_isBlank (List.all_eq_true.mp hblanks d List.mem_cons_self)
    obtain ⟨htake, hdrop⟩ := Text.takeWhile_append_of_head (List.all_eq_true.mpr hname) hstart
    obtain ⟨-, hblanks'⟩ := Text.takeWhile_append_cons (c := '=') source hblanks rfl
    unfold ofRule
    rw [List.append_eq, htake, hdrop, hblanks']
    obtain ⟨c, name, rfl⟩ := List.exists_cons_of_ne_nil hne
    rfl

/-! ### All forms -/

/-- A header starts with the sign of a comment. So it is no rule, and a comment is told from it by
what comes behind the sign. -/
theorem IsHeader.head? {word value t : Text} (h : IsHeader word value t) :
    t.head? = some ';' := by
  obtain ⟨first, second, third, -, -, -, -, -, rfl⟩ := h.spelled
  rfl

/-- What the reader says of a line is one of its forms. The case splits are those of the reader,
by the first character. -/
theorem says_ofTrimmed {t : Text} (htrim : Text.trim t = t) : Says t (ofTrimmed t) := by
  cases t with
  | nil => exact .blank
  | cons c rest =>
    rw [ofTrimmed]
    split
    · rename_i hc
      subst hc
      rcases ofComment_cases rest with hform | ⟨_, value, -, -, ⟨-, hform⟩ | ⟨-, hform⟩⟩
      · rw [hform]
        exact .comment ((ofComment_eq_nothing_iff htrim).mp hform)
      · rw [hform]
        exact .name ((ofComment_eq_name_iff htrim).mp hform)
      · rw [hform]
        exact .tier ((ofComment_eq_tier_iff htrim).mp hform)
    · rename_i hsemicolon
      have hother : ∀ word value, ¬ IsHeader word value (c :: rest) := fun word value hform =>
        hsemicolon (Option.some.inj hform.head?)
      split
      · rename_i hhash
        exact .comment ⟨.inr (congrArg some hhash), hother _, hother _⟩
      · rename_i hhash
        split
        · rename_i hsigil
          subst hsigil
          rcases ofRule_cases rest with hform | ⟨id, source, hform⟩
          · rw [hform]
            refine .malformed (List.cons_ne_nil _ _) (by simpa using hsemicolon)
              (by simpa using hhash) fun id source hrule => ?_
            rw [ofRule_eq_rule_iff.mpr hrule] at hform
            cases hform
          · rw [hform]
            exact .rule (ofRule_eq_rule_iff.mp hform)
        · rename_i hsigil
          refine .malformed (List.cons_ne_nil _ _) (by simpa using hsemicolon)
            (by simpa using hhash) fun id source hform => hsigil ?_
          obtain ⟨⟨name, rfl, -⟩, blanks, -, ht⟩ := hform
          exact (List.cons.inj ht).1

/-- A line of one of the forms is read as such. So the forms exclude each other, since the reader
gives one result. -/
theorem Says.ofTrimmed_eq {t : Text} {line : Line} (h : Says t line) (htrim : Text.trim t = t) :
    ofTrimmed t = line := by
  cases h with
  | blank => rfl
  | comment form =>
    rcases form.starts with hstart | hstart
    · obtain ⟨rest, rfl⟩ := List.head?_eq_some_iff.mp hstart
      exact (ofComment_eq_nothing_iff htrim).mpr form
    · obtain ⟨rest, rfl⟩ := List.head?_eq_some_iff.mp hstart
      rfl
  | name form =>
    obtain ⟨rest, rfl⟩ := List.head?_eq_some_iff.mp form.head?
    exact (ofComment_eq_name_iff htrim).mpr form
  | tier form =>
    obtain ⟨rest, rfl⟩ := List.head?_eq_some_iff.mp form.head?
    exact (ofComment_eq_tier_iff htrim).mpr form
  | rule form =>
    obtain ⟨name, hname, -⟩ := form.1
    obtain ⟨blanks, -, rfl⟩ := form.2
    rw [hname] at form ⊢
    exact ofRule_eq_rule_iff.mpr form
  | malformed visible semicolon hash noRule =>
    obtain ⟨c, rest, rfl⟩ := List.exists_cons_of_ne_nil visible
    rw [ofTrimmed, if_neg fun hc => semicolon (congrArg some hc),
      if_neg fun hc => hash (congrArg some hc)]
    split
    · rename_i hsigil
      subst hsigil
      rcases ofRule_cases rest with hform | ⟨id, source, hform⟩
      · exact hform
      · exact absurd (ofRule_eq_rule_iff.mp hform) (noRule id source)
    · rfl

/-- A trimmed line has exactly one of the forms, the one as which it is read. The two lemmas
before this one are its two directions. -/
theorem ofTrimmed_eq_iff {t : Text} {line : Line} (htrim : Text.trim t = t) :
    ofTrimmed t = line ↔ Says t line := by
  constructor
  · rintro rfl
    exact says_ofTrimmed htrim
  · intro h
    exact h.ofTrimmed_eq htrim

/-- So has each line without the blanks around it. -/
theorem says_trim_iff {t : Text} {line : Line} : Says (Text.trim t) line ↔ ofText t = line :=
  (ofTrimmed_eq_iff (Text.trim_trim t)).symm

/-- A line says nothing exactly if it is blank or a comment. -/
theorem ofText_eq_nothing_iff {t : Text} :
    ofText t = nothing ↔ Text.trim t = [] ∨ IsComment (Text.trim t) := by
  rw [← says_trim_iff]
  constructor
  · generalize Text.trim t = line
    intro h
    cases h with
    | blank => exact .inl rfl
    | comment form => exact .inr form
  · rintro (hblank | hcomment)
    · rw [hblank]
      exact .blank
    · exact .comment hcomment

/-- A header needs both of its words whole and a value. -/
example : Says "; grammar named Fetching".toList nothing ∧ Says ";grammar tier".toList nothing ∧
    Says "; grammar name = $go".toList (name "= $go".toList) :=
  ⟨(ofTrimmed_eq_iff rfl).mp rfl, (ofTrimmed_eq_iff rfl).mp rfl, (ofTrimmed_eq_iff rfl).mp rfl⟩

end Line

end TaskGrammar
