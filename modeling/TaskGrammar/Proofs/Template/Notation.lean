import Mathlib.Data.List.Chain
import Mathlib.Data.List.Forall2
import Mathlib.Data.List.Infix
import TaskGrammar.Proofs.Template.Scanning
import TaskGrammar.Proofs.Text.Positions

/-!
# `TaskGrammar.Proofs.Template.Notation`: the notation of templates is unambiguous

Whoever writes segments down one after the other has to take care of three things: a
segment must not take in the beginning of the next one, a wildcard must not lose its
parameters to its key or to the blanks before it, and the brace that closes a wildcard must
be the first one that is left over. `Canonical` is the list of these conditions. Every list
of segments that satisfies them is read back from each of its spellings.

* `scanParams_append_of_nested`: parameters that close no brace too many are read whole.
* `scan?_append_of_spells`: a segment is read back from its spelling and anything that may
  follow it.
* `segments_flatten_of_spells`: so is a canonical list of segments.
-/

set_option autoImplicit false

namespace TaskGrammar

/-! ### Canonical segments -/

/-- How many braces a text opens and does not close. -/
def Text.braceDepth (t : Text) : Int :=
  t.count '{' - t.count '}'

/-- Conditions under which a wildcard shows its key, its parameters and its end. -/
structure Wildcard.Canonical (found : Wildcard) : Prop where
  letters : found.key.all Text.isLetter = true
  /-- The parameters do not go on with the key. -/
  not_letter : ∀ c, found.params.head? = some c → Text.isLetter c = false
  /-- Without a key, the parameters do not go on with the blanks before it. -/
  not_blank : found.key = [] → ∀ c, found.params.head? = some c → Text.isBlank c = false
  /-- No beginning of the parameters closes more braces than it opens: the depth never falls
  below zero, and counted from the opening brace of the wildcard it never comes to zero. -/
  nested : ∀ start, start <+: found.params → 0 ≤ Text.braceDepth start
  /-- Before a closing brace all braces in the parameters are closed. -/
  balanced : found.terminated = true → Text.braceDepth found.params = 0

namespace Segment

/-- Conditions on a single segment. -/
def IsCanonical : Segment → Prop
  | literal text => text ≠ [] ∧ sigil ∉ text ∧ '{' ∉ text
  | reference id => ∃ name : Text, id = sigil :: name ∧ name.all Text.isIdentifier = true
  | wildcard found => found.Canonical

/-- Whether one segment may stand before another. Two literals would be one, a literal might
go on with a reference, and nothing comes after a wildcard that is not closed. -/
def MayPrecede : Segment → Segment → Prop
  | literal _, literal _ => False
  | reference _, literal text => ∀ c, text.head? = some c → Text.isIdentifier c = false
  | wildcard found, _ => found.terminated = true
  | _, _ => True

/-- Conditions under which segments can be told apart. -/
structure Canonical (segments : List Segment) : Prop where
  each : ∀ segment ∈ segments, segment.IsCanonical
  neighbours : segments.IsChain MayPrecede

/-! ### Parameters -/

/-- Depths add up, so a text can be counted from its first character on. -/
theorem braceDepth_cons (c : Char) (t : Text) :
    Text.braceDepth (c :: t) = Text.braceDepth [c] + Text.braceDepth t := by
  simp only [Text.braceDepth, List.count_cons, List.count_nil]
  omega

/-- A character is read as a parameter unless it closes more than is open; the depth goes
on as the braces do. -/
theorem scanParams_cons_of_nested {depth : Nat} {c : Char}
    (hopen : 0 ≤ depth + Text.braceDepth [c]) :
    ∃ inner : Nat, inner = depth + Text.braceDepth [c] ∧ ∀ t, scanParams depth (c :: t)
      = { scanParams inner t with params := c :: (scanParams inner t).params } := by
  by_cases hclosing : c = '}'
  · subst hclosing
    have hbrace : Text.braceDepth ['}'] = -1 := by decide
    rw [hbrace] at hopen ⊢
    obtain ⟨inner, rfl⟩ : ∃ inner, depth = inner + 1 := ⟨depth - 1, by omega⟩
    refine ⟨inner, by omega, fun t => ?_⟩
    rw [scanParams, if_neg (by omega)]
    simp
  · by_cases hopening : c = '{'
    · subst hopening
      have hbrace : Text.braceDepth ['{'] = 1 := by decide
      exact ⟨depth + 1, by rw [hbrace]; omega, fun t => by simp [scanParams]⟩
    · have hbrace : Text.braceDepth [c] = 0 := by
        simp [Text.braceDepth, hclosing, hopening]
      exact ⟨depth, by rw [hbrace]; omega, fun t => by simp [scanParams, hclosing, hopening]⟩

/-- Parameters that close no brace too many are read whole, and the rest goes on at the
depth at which they end. -/
theorem scanParams_append_of_nested {depth last : Nat} {params : Text} (rest : Text)
    (hnested : ∀ start, start <+: params → 0 ≤ depth + Text.braceDepth start)
    (hlast : last = depth + Text.braceDepth params) :
    scanParams depth (params ++ rest) =
      { scanParams last rest with params := params ++ (scanParams last rest).params } := by
  induction params generalizing depth with
  | nil =>
    have heq : last = depth := by
      simp only [Text.braceDepth, List.count_nil] at hlast
      omega
    rw [heq]
    rfl
  | cons c params ih =>
    obtain ⟨inner, hinner, hcons⟩ :=
      scanParams_cons_of_nested (hnested [c] (List.prefix_append [c] params))
    have hrest : ∀ start, start <+: params → 0 ≤ inner + Text.braceDepth start := by
      intro start hstart
      have h := hnested (c :: start) ((List.prefix_cons_inj c).mpr hstart)
      rw [braceDepth_cons] at h
      omega
    rw [braceDepth_cons] at hlast
    rw [List.cons_append, hcons, ih hrest (by omega)]
    rfl

/-- Canonical parameters are read up to the end of the wildcard. Inside of them every brace that
is opened is closed, so the first one too many is that of the wildcard. -/
theorem scanParams_of_canonical {found : Wildcard} (h : found.Canonical) (rest : Text)
    (hrest : found.terminated = true ∨ rest = []) :
    scanParams 0 (found.params ++ (closing found.terminated ++ rest))
      = { params := found.params, terminated := found.terminated, rest := rest } := by
  have hnested : ∀ start, start <+: found.params → 0 ≤ (0 : Nat) + Text.braceDepth start := by
    intro start hstart
    have hstart := h.nested start hstart
    omega
  obtain ⟨last, hlast⟩ := Int.eq_ofNat_of_zero_le (h.nested found.params (List.prefix_refl _))
  have hend : last = (0 : Nat) + Text.braceDepth found.params := by omega
  rw [scanParams_append_of_nested _ hnested hend]
  cases hterminated : found.terminated with
  | true =>
    have hzero : last = 0 := by
      have hbalanced := h.balanced hterminated
      omega
    simp [hzero, closing, scanParams]
  | false =>
    obtain rfl : rest = [] := by simpa [hterminated] using hrest
    simp [closing, scanParams]

/-! ### Segments -/

/-- Where a segment ends if it is written before `rest`: the first character is none that
the segment would go on with. -/
def Ends : Segment → Text → Prop
  | literal _, rest => ∀ c, rest.head? = some c → isPlain c = false
  | reference _, rest => ∀ c, rest.head? = some c → Text.isIdentifier c = false
  | wildcard found, rest => found.terminated = true ∨ rest = []

/-- Behind the key come the parameters or, without any, the closing brace. Neither goes on with
the letters of the key, so the key is read as a whole. -/
theorem head?_params_append {found : Wildcard} {rest : Text}
    (hrest : found.terminated = true ∨ rest = []) {c : Char}
    (hc : (found.params ++ (closing found.terminated ++ rest)).head? = some c) :
    found.params.head? = some c ∨ c = '}' := by
  cases hparams : found.params with
  | cons d params =>
    rw [hparams] at hc
    exact .inl hc
  | nil =>
    rw [hparams, List.nil_append] at hc
    rcases hrest with hterminated | rfl
    · rw [hterminated] at hc
      exact .inr (Option.some.inj hc).symm
    · rw [List.append_nil] at hc
      cases hterminated : found.terminated with
      | true =>
        rw [hterminated] at hc
        exact .inr (Option.some.inj hc).symm
      | false =>
        rw [hterminated] at hc
        cases hc

/-- No letter is a blank. The letters are those of the keys, from `A` to `Z` and from `a` to `z`. -/
theorem isBlank_eq_false_of_isLetter {c : Char} (h : Text.isLetter c = true) :
    Text.isBlank c = false := by
  have hletter : (decide (c.val ≥ 65 ∧ c.val ≤ 90) ||
      (decide (c.val ≥ 97) && decide (c.val ≤ 122))) = true := h
  have hrange : (65 ≤ c.toNat ∧ c.toNat ≤ 90) ∨ (97 ≤ c.toNat ∧ c.toNat ≤ 122) := by
    simpa [UInt32.le_iff_toNat_le] using hletter
  simp only [Text.isBlank, Bool.or_eq_false_iff, Bool.and_eq_false_iff, decide_eq_false_iff_not,
    beq_eq_false_iff_ne]
  omega

/-- A wildcard is read back from its spelling. Its parts are read one after the other, and each of
them is known to end before the next one. -/
theorem scanWildcard_append_of_canonical {found : Wildcard} (h : found.Canonical)
    {blanks : Text} (hblanks : blanks.all Text.isBlank = true) (rest : Text)
    (hrest : found.terminated = true ∨ rest = []) :
    scanWildcard (blanks ++ (found.key ++ (found.params ++ (closing found.terminated ++ rest))))
      = { source := '{' :: blanks ++ found.key ++ found.params ++ closing found.terminated
          segment := .wildcard found
          rest := rest } := by
  have hbehindKey : ∀ c, (found.params ++ (closing found.terminated ++ rest)).head? = some c →
      Text.isLetter c = false := by
    intro c hc
    rcases head?_params_append hrest hc with hparams | rfl
    · exact h.not_letter c hparams
    · decide
  have hbehindBlanks : ∀ c,
      (found.key ++ (found.params ++ (closing found.terminated ++ rest))).head? = some c →
        Text.isBlank c = false := by
    intro c hc
    cases hkey : found.key with
    | cons d key =>
      rw [hkey, List.cons_append, List.head?_cons, Option.some.injEq] at hc
      have hletters := h.letters
      rw [hkey, List.all_cons, Bool.and_eq_true] at hletters
      exact isBlank_eq_false_of_isLetter (hc ▸ hletters.1)
    | nil =>
      rw [hkey, List.nil_append] at hc
      rcases head?_params_append hrest hc with hparams | rfl
      · exact h.not_blank hkey c hparams
      · decide
  obtain ⟨htakeBlanks, hdropBlanks⟩ := Text.takeWhile_append_of_head hblanks hbehindBlanks
  obtain ⟨htakeKey, hdropKey⟩ := Text.takeWhile_append_of_head h.letters hbehindKey
  simp only [scanWildcard, htakeBlanks, hdropBlanks, htakeKey, hdropKey,
    scanParams_of_canonical h rest hrest]

/-- A segment is read back from its spelling, whatever follows, as long as it ends
there. -/
theorem scan?_append_of_spells {segment : Segment} {source rest : Text}
    (hsegment : segment.IsCanonical) (hspells : segment.Spells source)
    (hends : segment.Ends rest) :
    scan? (source ++ rest) = some { source := source, segment := segment, rest := rest } := by
  cases segment with
  | literal text =>
    obtain rfl : source = text := hspells
    obtain ⟨hne, hsigil, hbrace⟩ := hsegment
    have hplain : source.all isPlain = true := by
      rw [List.all_eq_true]
      intro c hc
      have hc1 : c ≠ sigil := fun e => hsigil (e ▸ hc)
      have hc2 : c ≠ '{' := fun e => hbrace (e ▸ hc)
      simp [isPlain, hc1, hc2]
    obtain ⟨htake, hdrop⟩ := Text.takeWhile_append_of_head hplain hends
    obtain ⟨c, text, rfl⟩ := List.exists_cons_of_ne_nil hne
    rw [List.mem_cons, not_or] at hsigil hbrace
    rw [List.all_cons, Bool.and_eq_true] at hplain
    rw [List.cons_append] at htake hdrop ⊢
    rw [List.takeWhile_cons_of_pos hplain.1] at htake
    rw [List.dropWhile_cons_of_pos hplain.1] at hdrop
    rw [scan?, if_neg (Ne.symm hsigil.1), if_neg (Ne.symm hbrace.1), htake, hdrop]
  | reference id =>
    obtain rfl : source = id := hspells
    obtain ⟨name, rfl, hname⟩ := hsegment
    obtain ⟨htake, hdrop⟩ := Text.takeWhile_append_of_head hname hends
    rw [List.cons_append, scan?, if_pos rfl, htake, hdrop]
  | wildcard found =>
    obtain ⟨blanks, hblanks, rfl⟩ := hspells
    have hscan := scanWildcard_append_of_canonical hsegment hblanks rest hends
    have hne : '{' ≠ sigil := by decide
    simp only [List.append_assoc, List.cons_append] at hscan ⊢
    rw [scan?, if_neg hne, if_pos rfl, hscan]

/-- A segment ends before a spelling of any segment that it may precede. There is a case for each
pair; two literals are one that is written in two parts. -/
theorem ends_of_mayPrecede {segment next : Segment} {source : Text} (rest : Text)
    (hprecede : segment.MayPrecede next) (hnext : next.IsCanonical)
    (hspells : next.Spells source) : segment.Ends (source ++ rest) := by
  cases next with
  | literal text =>
    obtain rfl : source = text := hspells
    obtain ⟨c, text, rfl⟩ := List.exists_cons_of_ne_nil hnext.1
    cases segment with
    | literal other => cases hprecede
    | reference id => exact hprecede
    | wildcard found => exact .inl hprecede
  | reference id =>
    obtain rfl : source = id := hspells
    obtain ⟨name, rfl, hname⟩ := hnext
    cases segment with
    | literal other =>
      rintro c ⟨⟩
      decide
    | reference id =>
      rintro c ⟨⟩
      decide
    | wildcard found => exact .inl hprecede
  | wildcard inner =>
    obtain ⟨blanks, hblanks, rfl⟩ := hspells
    cases segment with
    | literal other =>
      rintro c ⟨⟩
      decide
    | reference id =>
      rintro c ⟨⟩
      decide
    | wildcard found => exact .inl hprecede

/-- Nothing follows a segment that is written last. -/
theorem ends_nil (segment : Segment) : segment.Ends [] := by
  cases segment with
  | literal text => rintro c ⟨⟩
  | reference id => rintro c ⟨⟩
  | wildcard found => exact .inr rfl

/-- Segments that can be told apart are read back from what is written for them, one after
the other, whichever blanks stand before the keys of wildcards. -/
theorem segments_flatten_of_spells {segments : List Segment} (h : Canonical segments)
    {sources : List Text} (hspells : List.Forall₂ Spells segments sources) :
    Segment.segments sources.flatten = segments := by
  obtain ⟨heach, hchain⟩ := h
  induction hspells with
  | nil => exact segments_nil
  | @cons segment source later texts hsource hlater ih =>
    rw [List.forall_mem_cons] at heach
    have hends : segment.Ends texts.flatten := by
      cases hlater with
      | nil => exact ends_nil segment
      | @cons next text _ rest htext _ =>
        rw [List.isChain_cons_cons] at hchain
        exact ends_of_mayPrecede rest.flatten hchain.1 (heach.2 next List.mem_cons_self) htext
    have hscan := scan?_append_of_spells heach.1 hsource hends
    rw [List.flatten_cons, segments_of_scan? hscan, ih heach.2 hchain.tail]

/-- Segments of every kind: a key with braces in its parameters, a reference that ends at a
letter beyond ASCII, one without a name, a wildcard without a key, and one that is not
closed. -/
def sample : List Segment :=
  [literal "To ".toList, wildcard ⟨"room".toList, " {a} b".toList, true⟩,
    reference "$go_1".toList, literal "é ".toList, reference "$".toList,
    wildcard ⟨[], "{}".toList, true⟩, wildcard ⟨"name".toList, " \x7bstill".toList, false⟩]

/-- They are read back, here with two blanks before the first key. -/
theorem segments_sample :
    Canonical sample ∧ segments ["To ".toList, "{　 room {a} b}".toList, "$go_1".toList,
      "é ".toList, "$".toList, "{ {}}".toList, "\x7bname \x7bstill".toList].flatten = sample := by
  have hnested : ∀ params : Text, (∀ start ∈ params.inits, 0 ≤ Text.braceDepth start) →
      ∀ start, start <+: params → 0 ≤ Text.braceDepth start :=
    fun params h start hstart => h start ((List.mem_inits start params).mpr hstart)
  have hroom : Wildcard.Canonical ⟨"room".toList, " {a} b".toList, true⟩ :=
    ⟨by decide, by rintro c ⟨⟩; decide, by rintro ⟨⟩, hnested _ (by decide), by decide⟩
  have hbare : Wildcard.Canonical ⟨[], "{}".toList, true⟩ :=
    ⟨by decide, by rintro c ⟨⟩; decide, by rintro - c ⟨⟩; decide, hnested _ (by decide), by decide⟩
  have hopen : Wildcard.Canonical ⟨"name".toList, " \x7bstill".toList, false⟩ :=
    ⟨by decide, by rintro c ⟨⟩; decide, by rintro ⟨⟩, hnested _ (by decide), by decide⟩
  have hcanonical : Canonical sample := by
    constructor
    · simp only [sample, List.forall_mem_cons, IsCanonical]
      exact ⟨by decide, hroom, ⟨"go_1".toList, rfl, by decide⟩, by decide, ⟨[], rfl, rfl⟩, hbare,
        hopen, List.forall_mem_nil _⟩
    · simp only [sample, List.isChain_cons_cons, List.isChain_singleton, MayPrecede]
      exact ⟨trivial, trivial, by rintro c ⟨⟩; decide, trivial, trivial, trivial, trivial⟩
  refine ⟨hcanonical, segments_flatten_of_spells hcanonical ?_⟩
  exact .cons rfl (.cons ⟨"　 ".toList, by decide, rfl⟩ (.cons rfl (.cons rfl (.cons rfl
    (.cons ⟨" ".toList, by decide, rfl⟩ (.cons ⟨[], rfl, rfl⟩ .nil))))))

end Segment

end TaskGrammar
