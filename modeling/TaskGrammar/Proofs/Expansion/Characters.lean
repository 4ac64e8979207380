import TaskGrammar.Proofs.Expansion.Derivation
import TaskGrammar.Proofs.Generator.Selection
import TaskGrammar.Proofs.Grammar.Bars
import TaskGrammar.Proofs.Grammar.Parsed
import TaskGrammar.Proofs.Speech.Content
import TaskGrammar.Proofs.Text.Lines

/-!
# `TaskGrammar.Proofs.Expansion.Characters`: where the characters of a sentence come from

A sentence consists of literal text and of names of entities. Literal text is part of a
template, a template is part of an alternative of a rule line, and a line is part of a file.
Nothing on this way makes up a character, so a character that is missing at the start is
missing in every sentence.

* `Grammar.singleLine_of_parse`: no template of a grammar file has a line break.
* `Yields.forall_mem_text`: what holds of all characters of literals and names holds of those of
  a sentence.
* `Yields.notMem_text`: a character that no template and no entity has is in no sentence.
* `Generator.task_satisfies`: a task of a generator is a derivation of one of its grammars.
-/

set_option autoImplicit false

namespace TaskGrammar

/-! ### From a file to its templates -/

/-- Cutting and trimming put nothing in, so a piece has no character that its source has not. -/
theorem mem_of_mem_alternatives {source template : Text} (h : template ∈ alternatives source)
    {c : Char} (hc : c ∈ template) : c ∈ source := by
  unfold alternatives at h
  split at h
  · cases h
  · obtain ⟨piece, hpiece, rfl⟩ := List.mem_map.mp h
    exact Text.mem_of_mem_trim (mem_of_mem_cutAtBars hpiece (Text.mem_of_mem_trim hc))

/-- The right-hand side of a rule line is part of the line. Reading only cuts off blanks, the id
and the equals sign, so what is not in the line is not in the rule either. -/
theorem Line.mem_of_ofText_eq_rule {t id source : Text} (h : ofText t = .rule id source) {c : Char}
    (hc : c ∈ source) : c ∈ t := by
  obtain ⟨rest, htrim, hrule⟩ := ofRule_of_ofText h
  have hrest : c ∈ rest := by
    unfold ofRule at hrule
    split at hrule
    · cases hrule
    · rename_i heq _
      obtain ⟨-, rfl⟩ := Line.rule.inj hrule
      have hblanks := List.dropWhile_suffix Text.isBlank (l := rest.dropWhile Text.isIdentifier)
      have hmem := hblanks.subset (heq ▸ List.mem_cons_of_mem _ hc)
      exact (List.dropWhile_suffix _).subset hmem
    · cases hrule
  refine Text.mem_of_mem_trim ?_
  rw [htrim]
  exact List.mem_cons_of_mem _ hrest

/-- A rule of an extended table has old replacements and new ones, no others. The new ones may be
added to a rule that is there or be a rule of their own. -/
theorem Rule.mem_replacements_of_mem_extend {rules : List Rule} {id : Text}
    {replacements : List Text} {rule : Rule} (hrule : rule ∈ extend rules id replacements)
    {template : Text} (h : template ∈ rule.replacements) :
    template ∈ replacements ∨ ∃ old ∈ rules, template ∈ old.replacements := by
  induction rules with
  | nil =>
    obtain rfl := List.mem_singleton.mp hrule
    exact .inl h
  | cons first rest ih =>
    rw [extend] at hrule
    split at hrule
    · rcases List.mem_cons.mp hrule with rfl | hrest
      · rcases List.mem_append.mp h with hold | hnew
        · exact .inr ⟨first, List.mem_cons_self, hold⟩
        · exact .inl hnew
      · exact .inr ⟨rule, List.mem_cons_of_mem _ hrest, h⟩
    · rcases List.mem_cons.mp hrule with rfl | hrest
      · exact .inr ⟨rule, List.mem_cons_self, h⟩
      · rcases ih hrest with hnew | ⟨old, hold, htemplate⟩
        · exact .inl hnew
        · exact .inr ⟨old, List.mem_cons_of_mem _ hold, htemplate⟩

/-- A line of a file has no line break, so the templates that it adds have none. This is the step
for one line; the lines that are no rules leave the table as it was. -/
theorem Grammar.singleLine_applyLine {number : Nat} {text : Text} {before after : Grammar}
    (htext : '\n' ∉ text) (hbefore : before.SingleLine)
    (h : applyLine number (.ofText text) before = .ok after) : after.SingleLine := by
  cases hline : Line.ofText text with
  | nothing | name value =>
    rw [hline] at h
    cases h
    exact hbefore
  | tier value =>
    rw [hline, applyLine] at h
    split at h
    · cases h
      exact hbefore
    · cases h
  | rule id source =>
    rw [hline] at h
    cases h
    intro rule hrule template htemplate hbreak
    rcases Rule.mem_replacements_of_mem_extend hrule htemplate with hnew | ⟨old, hold, hmem⟩
    · exact htext (Line.mem_of_ofText_eq_rule hline (mem_of_mem_alternatives hnew hbreak))
    · exact hbefore old hold template hmem hbreak
  | malformed =>
    rw [hline] at h
    cases h

/-- No template of a grammar file has a line break. Each of them comes from one line of the file,
whatever is written there. -/
theorem Grammar.singleLine_of_parse {defaultName source : Text} {grammar : Grammar}
    (h : parse defaultName source = .ok grammar) : grammar.SingleLine := by
  refine parse_preserves Grammar.SingleLine ?_ ?_ h
  · intro rule hrule
    cases hrule
  · intro number before after text htext hbefore hline
    exact singleLine_applyLine (Text.notMem_of_mem_lines htext) hbefore hline

/-! ### From templates and entities to a sentence -/

/-- A literal stands in its template. -/
theorem Segment.mem_template_of_literal {template text : Text}
    (h : Segment.literal text ∈ segments template) {c : Char} (hc : c ∈ text) : c ∈ template := by
  obtain ⟨source, hspells, hinfix⟩ := exists_spelling template h
  rw [show source = text from hspells] at hinfix
  exact hinfix.subset hc

/-- What holds of the characters of all literals and of all names that may be drawn holds of the
characters of a sentence: there are no others in it. -/
theorem Yields.forall_mem_text {grammar : Grammar} {entities : Entities} {p : Char → Prop}
    (htemplates : ∀ rule ∈ grammar.rules, ∀ template ∈ rule.replacements,
      ∀ text, Segment.literal text ∈ Segment.segments template → ∀ c ∈ text, p c)
    (hentities : ∀ kind token, entities.Offers kind token → ∀ c ∈ token.text, p c)
    {segments : List Segment} {tokens : List Token} (h : Yields grammar entities segments tokens)
    (hliterals : ∀ text, Segment.literal text ∈ segments → ∀ c ∈ text, p c) :
    ∀ c ∈ tokens.flatMap Token.text, p c := by
  induction h with
  | nil => exact nofun
  | literal _ ih =>
    have hlater := ih fun text htext => hliterals text (List.mem_cons_of_mem _ htext)
    rw [List.flatMap_cons, List.forall_mem_append]
    exact ⟨hliterals _ List.mem_cons_self, hlater⟩
  | wildcard added _ ih =>
    have hlater := ih fun text htext => hliterals text (List.mem_cons_of_mem _ htext)
    rw [List.flatMap_append, List.forall_mem_append]
    refine ⟨?_, hlater⟩
    cases added with
    | remark void =>
      -- The remark of the wildcard for nothing is no part of the text.
      rename_i wildcard _ _ _
      cases wildcard.metadata <;> exact nofun
    | entity offered =>
      rw [List.flatMap_singleton, Speech.text_annotate]
      exact hentities _ _ offered
  | undefined _ _ ih | empty _ _ _ ih =>
    exact ih fun text htext => hliterals text (List.mem_cons_of_mem _ htext)
  | reference found chosen _ _ ihinner ih =>
    have hlater := ih fun text htext => hliterals text (List.mem_cons_of_mem _ htext)
    have hinner := ihinner (htemplates _ (Grammar.rule?_eq_some found).1 _ chosen)
    rw [List.flatMap_append, List.forall_mem_append]
    exact ⟨hinner, hlater⟩

/-- A character that no template and no entity has is in no sentence. The literals of the segments
that are expanded are asked about separately, as they need not come from the grammar. -/
theorem Yields.notMem_text {grammar : Grammar} {entities : Entities} {mark : Char}
    (htemplates : ∀ rule ∈ grammar.rules, ∀ template ∈ rule.replacements, mark ∉ template)
    (hentities : ∀ kind token, entities.Offers kind token → mark ∉ token.text)
    {segments : List Segment} {tokens : List Token} (h : Yields grammar entities segments tokens)
    (hliterals : ∀ text, Segment.literal text ∈ segments → mark ∉ text) :
    mark ∉ tokens.flatMap Token.text := by
  have hne : ∀ {t : Text}, mark ∉ t → ∀ c ∈ t, c ≠ mark := fun ht c hc e => ht (e ▸ hc)
  intro hmark
  refine h.forall_mem_text (p := (· ≠ mark)) ?_ (fun kind token offered => hne ?_)
    (fun text htext => hne (hliterals text htext)) mark hmark rfl
  · intro rule hrule template htemplate text htext
    exact hne fun hmem =>
      htemplates rule hrule template htemplate (Segment.mem_template_of_literal htext hmem)
  · exact hentities kind token offered

/-- The entities that are drawn have the names that are listed. -/
theorem Entities.Offers.notMem_text {entities : Entities} (hbuilt : entities.Built)
    (h : entities.SingleLine) {kind : Wildcard.Kind} {token : Token}
    (offered : entities.Offers kind token) : '\n' ∉ token.text := by
  obtain ⟨collection, -, hmem⟩ := Speech.text_mem_listed hbuilt offered
  exact Speech.notMem_of_mem_listed h collection _ hmem

/-! ### The sentences of a generator -/

namespace Generator

variable {σ : Type} [RandomSource σ] (generator : Generator)

/-- A grammar that is selected is one of the generator's, whatever the tier and however the draws
come out. For the unknown tier none is. -/
theorem selectGrammar_satisfies (tier : Tier) :
    (generator.selectGrammar tier : Draw σ Grammar).Satisfies (fun _ => True) (fun _ => True)
      (· ∈ generator.grammars) := by
  by_cases htier : tier = .unknown
  · unfold selectGrammar
    rw [if_pos htier]
    exact Draw.Satisfies.throw trivial
  · exact (selectGrammar_ends generator htier Random.respects_any).mono (fun _ _ => trivial)
      fun _ hanswers => hanswers.1

/-- A task of a generator is a derivation of the root of one of its grammars. Which one this is
depends on the source, so it is only said that there is one. -/
theorem task_satisfies (tier : Tier) :
    (generator.task tier : Draw σ Task).Satisfies (fun _ => True) (fun _ => True)
      fun task => ∃ grammar ∈ generator.grammars,
        Yields grammar generator.entities [.reference Grammar.rootId] task.tokens := by
  unfold task
  refine (generator.selectGrammar_satisfies tier).bind fun grammar hgrammar => ?_
  have htask := Expansion.task_satisfies (σ := σ) (generator.expansion grammar) Random.respects_any
  exact htask.mono (fun _ _ => trivial) fun task hyields => ⟨grammar, hgrammar, hyields⟩

/-- The same for a task that a code asks for. A code that is not one of a tier has no task, of
which there is nothing to show. -/
theorem taskForCode_satisfies (code : Text) :
    (generator.taskForCode code : Draw σ (Option Task)).Satisfies (fun _ => True) (fun _ => True)
      fun task? => ∀ task ∈ task?, ∃ grammar ∈ generator.grammars,
        Yields grammar generator.entities [.reference Grammar.rootId] task.tokens := by
  unfold taskForCode
  cases Tier.ofCode? code with
  | none => exact Draw.Satisfies.pure nofun
  | some tier =>
    refine (generator.task_satisfies tier).bind fun task htask => ?_
    refine Draw.Satisfies.pure fun other hother => ?_
    exact Option.some.inj hother ▸ htask

end Generator

end TaskGrammar
