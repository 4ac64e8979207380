import TaskGrammar.Grammar.Source

/-!
# `TaskGrammar.Proofs.Grammar.Bars`: cutting at bars

`cutAtBars` goes through a text from its end, and hands a count of open braces down. Here it is
described from the front: the count at the end of a first part says how the rest is cut.

* `cutAtBars_cons` / `cutAtBars_bar`: the two equations of the definition, one for each kind of
  character.
* `cutAtBars_append` / `cutAtBars_append_bar`: a first part that has no bar to be cut at, and one
  with such a bar behind it.
* `cutAtBars_eq_singleton_iff`: a text is not cut exactly if its bars all stand inside braces.
* `join_cutAtBars`: nothing is lost but the bars, so characters come from the text.
-/

set_option autoImplicit false

namespace TaskGrammar

/-! ### Open braces -/

/-- How many braces are open at the end of a text, with `depth` braces open before it. A
closing brace without an opening one counts for nothing. -/
def Text.openBraces (depth : Nat) (t : Text) : Nat :=
  t.foldl (fun depth c => if c = '{' then depth + 1 else if c = '}' then depth - 1 else depth) depth

/-- Whether a brace is open wherever a bar stands. -/
def Text.BarsInside (t : Text) : Prop :=
  ∀ before after, t = before ++ '|' :: after → 0 < Text.openBraces 0 before

namespace Text

/-- Braces are counted in one part after the other. -/
theorem openBraces_append (depth : Nat) (before after : Text) :
    openBraces depth (before ++ after) = openBraces (openBraces depth before) after :=
  List.foldl_append

/-- So they are counted character by character, as the cut does it. The inductions over a text in
this module all use this equation. -/
theorem openBraces_cons (depth : Nat) (c : Char) (t : Text) :
    openBraces depth (c :: t) = openBraces (openBraces depth [c]) t :=
  rfl

/-- Without an opening brace none is ever open, however many are closed. -/
theorem openBraces_of_notMem {t : Text} (h : '{' ∉ t) : openBraces 0 t = 0 := by
  induction t with
  | nil => rfl
  | cons c t ih =>
    rw [List.mem_cons, not_or] at h
    have hstep : openBraces 0 [c] = 0 := by
      simp [openBraces, Ne.symm h.1]
    rw [openBraces_cons, hstep, ih h.2]

end Text

/-! ### One character -/

/-- There is always a piece, be it an empty one. An empty alternative is only dropped later. -/
theorem cutAtBars_ne_nil (depth : Nat) (t : Text) : cutAtBars depth t ≠ [] := by
  cases t with
  | nil => simp [cutAtBars]
  | cons c t =>
    rw [cutAtBars]
    split
    · simp
    · dsimp only
      split <;> exact List.cons_ne_nil _ _

/-- Any other character than a bar outside of braces goes to the first piece behind it. -/
theorem cutAtBars_cons {depth : Nat} {c : Char} {t part : Text} {parts : List Text}
    (hbar : ¬ (c = '|' ∧ depth = 0))
    (hcut : cutAtBars (Text.openBraces depth [c]) t = part :: parts) :
    cutAtBars depth (c :: t) = (c :: part) :: parts := by
  have hinner : Text.openBraces depth [c]
      = if c = '{' then depth + 1 else if c = '}' then depth - 1 else depth := rfl
  rw [hinner] at hcut
  rw [cutAtBars, if_neg hbar]
  simp only [hcut]

/-- A bar outside of braces ends a piece. The piece that ends there has been read before, so it is
empty here. -/
theorem cutAtBars_bar (rest : Text) : cutAtBars 0 ('|' :: rest) = [] :: cutAtBars 0 rest := by
  rw [cutAtBars, if_pos ⟨rfl, rfl⟩]

/-! ### Two parts -/

/-- A first part whose bars all stand inside braces belongs to the first piece. With the next
lemma these are the two equations that everything else about the cut is derived from. -/
theorem cutAtBars_append {depth : Nat} {before rest part : Text} {parts : List Text}
    (hinside : ∀ start later, before = start ++ '|' :: later → 0 < Text.openBraces depth start)
    (hcut : cutAtBars (Text.openBraces depth before) rest = part :: parts) :
    cutAtBars depth (before ++ rest) = (before ++ part) :: parts := by
  induction before generalizing depth with
  | nil => exact hcut
  | cons c before ih =>
    have hbar : ¬ (c = '|' ∧ depth = 0) := by
      rintro ⟨rfl, rfl⟩
      exact absurd (hinside [] before rfl) (Nat.lt_irrefl 0)
    refine cutAtBars_cons hbar (ih (fun start later heq => ?_) hcut)
    exact hinside (c :: start) later (congrArg (c :: ·) heq)

/-- At a bar at which no brace is open the pieces of what is before it end. What is behind it is
cut as if it stood alone. -/
theorem cutAtBars_append_bar {depth : Nat} {before : Text} (rest : Text)
    (h : Text.openBraces depth before = 0) :
    cutAtBars depth (before ++ '|' :: rest) = cutAtBars depth before ++ cutAtBars 0 rest := by
  induction before generalizing depth with
  | nil =>
    obtain rfl : depth = 0 := h
    exact cutAtBars_bar rest
  | cons c before ih =>
    -- The bar may not be the first one that separates; the pieces before it end one by one.
    by_cases hbar : c = '|' ∧ depth = 0
    · obtain ⟨rfl, rfl⟩ := hbar
      have hrest : Text.openBraces 0 before = 0 := h
      rw [List.cons_append, cutAtBars_bar, cutAtBars_bar, ih hrest, List.cons_append]
    · obtain ⟨part, parts, hcut⟩ := List.exists_cons_of_ne_nil
        (cutAtBars_ne_nil (Text.openBraces depth [c]) before)
      have hlonger : cutAtBars (Text.openBraces depth [c]) (before ++ '|' :: rest)
          = cutAtBars (Text.openBraces depth [c]) before ++ cutAtBars 0 rest := ih h
      rw [hcut, List.cons_append] at hlonger
      rw [List.cons_append, cutAtBars_cons hbar hlonger, cutAtBars_cons hbar hcut]
      rfl

/-- A text is in one piece exactly if at each of its bars a brace is open. These are the texts
that can be alternatives. -/
theorem cutAtBars_eq_singleton_iff {depth : Nat} {t : Text} :
    cutAtBars depth t = [t] ↔
      ∀ before after, t = before ++ '|' :: after → 0 < Text.openBraces depth before := by
  constructor
  · intro h before after heq
    -- Otherwise there would be a piece on either side of the bar.
    refine Nat.pos_of_ne_zero fun hzero => ?_
    rw [heq, cutAtBars_append_bar after hzero] at h
    have hlength := congrArg List.length h
    have hpos := List.length_pos_iff.mpr (cutAtBars_ne_nil depth before)
    have hpos' := List.length_pos_iff.mpr (cutAtBars_ne_nil 0 after)
    rw [List.length_append, List.length_singleton] at hlength
    omega
  · intro h
    have hwhole : cutAtBars depth (t ++ []) = [t ++ []] := cutAtBars_append h rfl
    rwa [List.append_nil] at hwhole

/-! ### The pieces together -/

namespace Text

/-- Between two parts the separator stands. -/
theorem join_cons_cons (separator first second : Text) (parts : List Text) :
    join separator (first :: second :: parts)
      = first ++ separator ++ join separator (second :: parts) := by
  simp [join]

/-- A character in front of the first part is in front of the whole, since no separator comes
before it. -/
theorem join_cons_head (separator : Text) (c : Char) (first : Text) (parts : List Text) :
    join separator ((c :: first) :: parts) = c :: join separator (first :: parts) := by
  cases parts with
  | nil => rfl
  | cons second parts => rw [join_cons_cons, join_cons_cons, List.cons_append, List.cons_append]

/-- What is in a part is in the whole. The separator only adds to it. -/
theorem mem_join {separator part : Text} {parts : List Text} (hpart : part ∈ parts) {c : Char}
    (hc : c ∈ part) : c ∈ join separator parts := by
  induction parts with
  | nil => cases hpart
  | cons first parts ih =>
    cases parts with
    | nil =>
      obtain rfl := List.mem_singleton.mp hpart
      simpa [join] using hc
    | cons second parts =>
      rw [join_cons_cons, List.append_assoc, List.mem_append, List.mem_append]
      rcases List.mem_cons.mp hpart with rfl | hlater
      · exact .inl hc
      · exact .inr (.inr (ih hlater))

end Text

/-- The pieces with the bars between them are the text. So the cut loses nothing, and what is
known of the text is known of its pieces. -/
theorem join_cutAtBars (depth : Nat) (t : Text) : Text.join ['|'] (cutAtBars depth t) = t := by
  induction t generalizing depth with
  | nil => rfl
  | cons c t ih =>
    by_cases hbar : c = '|' ∧ depth = 0
    · obtain ⟨part, parts, hcut⟩ := List.exists_cons_of_ne_nil (cutAtBars_ne_nil 0 t)
      have hrest := ih 0
      rw [hcut] at hrest
      rw [hbar.1, hbar.2, cutAtBars_bar, hcut, Text.join_cons_cons, hrest]
      rfl
    · obtain ⟨part, parts, hcut⟩ := List.exists_cons_of_ne_nil
        (cutAtBars_ne_nil (Text.openBraces depth [c]) t)
      have hrest := ih (Text.openBraces depth [c])
      rw [hcut] at hrest
      rw [cutAtBars_cons hbar hcut, Text.join_cons_head, hrest]

/-- Every piece is made of characters of the text. -/
theorem mem_of_mem_cutAtBars {depth : Nat} {t piece : Text} (h : piece ∈ cutAtBars depth t)
    {c : Char} (hc : c ∈ piece) : c ∈ t := by
  rw [← join_cutAtBars depth t]
  exact Text.mem_join h hc

/-- The first piece is a beginning of the text. -/
theorem isPrefix_of_cutAtBars {depth : Nat} {t part : Text} {parts : List Text}
    (hcut : cutAtBars depth t = part :: parts) : part <+: t := by
  have hjoin := join_cutAtBars depth t
  rw [hcut] at hjoin
  rw [← hjoin]
  cases parts with
  | nil => simp [Text.join]
  | cons second parts =>
    rw [Text.join_cons_cons, List.append_assoc]
    exact List.prefix_append _ _

/-- Where a piece ends no brace is open, unless it is the last one. The brace that was open there
would have kept the bar inside. -/
theorem openBraces_join_of_cutAtBars {depth : Nat} {t : Text} {left right : List Text}
    (hcut : cutAtBars depth t = left ++ right) (hleft : left ≠ []) (hright : right ≠ []) :
    Text.openBraces depth (Text.join ['|'] left) = 0 := by
  induction t generalizing depth left with
  | nil =>
    -- A single piece is not two.
    have hlength := congrArg List.length hcut
    have hpos := List.length_pos_iff.mpr hleft
    have hpos' := List.length_pos_iff.mpr hright
    rw [cutAtBars, List.length_singleton, List.length_append] at hlength
    omega
  | cons c t ih =>
    obtain ⟨first, left, rfl⟩ := List.exists_cons_of_ne_nil hleft
    by_cases hbar : c = '|' ∧ depth = 0
    · obtain ⟨rfl, rfl⟩ := hbar
      rw [cutAtBars_bar, List.cons_append] at hcut
      obtain ⟨rfl, hrest⟩ := List.cons.inj hcut
      cases left with
      | nil => rfl
      | cons second left =>
        rw [Text.join_cons_cons]
        exact ih hrest (List.cons_ne_nil _ _)
    · obtain ⟨part, parts, hinner⟩ := List.exists_cons_of_ne_nil
        (cutAtBars_ne_nil (Text.openBraces depth [c]) t)
      rw [cutAtBars_cons hbar hinner, List.cons_append] at hcut
      obtain ⟨rfl, hparts⟩ := List.cons.inj hcut
      rw [hparts, ← List.cons_append] at hinner
      rw [Text.join_cons_head, Text.openBraces_cons]
      exact ih hinner (List.cons_ne_nil _ _)

end TaskGrammar
