import TaskGrammar.Proofs.Grammar.Bars
import TaskGrammar.Proofs.Grammar.Forms
import TaskGrammar.Proofs.Grammar.Table
import TaskGrammar.Proofs.Text.Lines

/-!
# `TaskGrammar.Proofs.Grammar.Printing`: grammars written down and read back

`Grammar.render` writes a grammar as a file: its name, its tier, and a line for each
replacement of each rule. A line says less than it seems: blanks at its ends do not count,
and a bar starts another replacement, unless a brace is open before it. `Printable` has the
conditions under which nothing is lost, `BarsInside` among them.

* `ofText_nameLine` / `ofText_tierLine` / `ofText_ruleLine`: what a line says is what was
  written on it.
* `Reads`: lines turn one grammar into another, wherever they stand in a file. A run of
  lines is put together from its parts by `Reads.append`.
* `exists_reads_rules`: the lines of some rules add these rules to the table.
* `parse_render`: a grammar is read back from the file that is written for it.
-/

set_option autoImplicit false

namespace TaskGrammar

/-! ### Alternatives -/

/-- Conditions under which a replacement can stand on a line: it is there, without blanks
around it, and it is not taken for several. -/
structure Text.IsAlternative (t : Text) : Prop where
  ne_nil : t ≠ []
  trimmed : Text.trim t = t
  oneLine : '\n' ∉ t
  barsInside : t.BarsInside

/-- Behind a blank, such a replacement is the only alternative of a right-hand side. -/
theorem alternatives_cons {t : Text} (h : t.IsAlternative) : alternatives (' ' :: t) = [t] := by
  have htrim : Text.trim (' ' :: t) = t := (Text.trim_cons_of_isBlank t rfl).trans h.trimmed
  rw [alternatives, htrim, if_neg h.ne_nil, cutAtBars_eq_singleton_iff.mpr h.barsInside,
    List.map_singleton, h.trimmed]

/-! ### What is written -/

/-- The line that gives a grammar its name. -/
def Line.nameLine (name : Text) : Text :=
  "; grammar name ".toList ++ name

/-- The line that gives a grammar its tier. -/
def Line.tierLine (tier : Tier) : Text :=
  "; grammar tier ".toList ++ tier.name

/-- A line with the id of a rule and a right-hand side. -/
def Line.ruleLine (id source : Text) : Text :=
  id ++ " =".toList ++ source

/-- The lines of a rule: one for each replacement, or a single one without any. -/
def Rule.lines (rule : Rule) : List Text :=
  match rule.replacements with
  | [] => [Line.ruleLine rule.id []]
  | replacements => replacements.map fun replacement => Line.ruleLine rule.id (' ' :: replacement)

namespace Grammar

/-- The lines of a grammar. -/
def lines (grammar : Grammar) : List Text :=
  Line.nameLine grammar.name :: Line.tierLine grammar.tier :: grammar.rules.flatMap Rule.lines

/-- A grammar as a file. -/
def render (grammar : Grammar) : Text :=
  Text.unlines grammar.lines

/-- Conditions under which a file says the whole of a grammar. -/
structure Printable (grammar : Grammar) : Prop where
  name_ne_nil : grammar.name ≠ []
  name_trimmed : Text.trim grammar.name = grammar.name
  name_oneLine : '\n' ∉ grammar.name
  root : grammar.contains rootId = true
  named : ∀ rule ∈ grammar.rules, Rule.IsNamed rule.id
  alternatives : ∀ rule ∈ grammar.rules, ∀ replacement ∈ rule.replacements,
    replacement.IsAlternative

end Grammar

/-! ### What a line says -/

namespace Line

/-- Nothing is trimmed off a text whose first and last characters are visible. -/
theorem trim_append {before after : Text} {c : Char} (hc : before.head? = some c)
    (hblank : Text.isBlank c = false)
    (hlast : ∀ d, (before ++ after).getLast? = some d → Text.isBlank d = false) :
    Text.trim (before ++ after) = before ++ after := by
  refine Text.trim_eq_self_iff.mpr ⟨fun d hd => ?_, hlast⟩
  rw [List.head?_append, hc, Option.some_or, Option.some.injEq] at hd
  exact hd ▸ hblank

/-- A line with a name has the name at its end. -/
theorem trim_nameLine {value : Text} (hne : value ≠ []) (htrim : Text.trim value = value) :
    Text.trim (nameLine value) = nameLine value := by
  refine trim_append rfl rfl fun d hd => ?_
  rw [List.getLast?_append_of_ne_nil _ hne] at hd
  exact (Text.trim_eq_self_iff.mp htrim).2 d hd

/-- A line with a name is one line if the name is. -/
theorem notMem_nameLine {value : Text} (h : '\n' ∉ value) : '\n' ∉ nameLine value := by
  unfold nameLine
  intro hmem
  rcases List.mem_append.mp hmem with hword | hvalue
  · revert hword
    decide
  · exact h hvalue

/-- A line with a name says this name. -/
theorem ofText_nameLine {value : Text} (hne : value ≠ []) (htrim : Text.trim value = value) :
    ofText (nameLine value) = .name value := by
  have hline := trim_nameLine hne htrim
  rw [ofText, hline, ofTrimmed_eq_iff hline]
  exact .name ⟨⟨[' '], [' '], [' '], rfl, rfl, rfl, by simp, by simp, rfl⟩, hne, htrim⟩

/-- A line with a tier says the tier's name, which names the tier. -/
theorem ofText_tierLine (value : Tier) : ofText (tierLine value) = .tier value.name := by
  cases value <;> rfl

/-- A line with a tier is a line of its own: there is something on it, it has no feed, and nothing
is trimmed off it. -/
theorem tierLine_separate (value : Tier) :
    tierLine value ≠ [] ∧ '\n' ∉ tierLine value ∧ Text.trim (tierLine value) = tierLine value := by
  cases value <;> exact ⟨by decide, by decide, rfl⟩

/-- The name of a tier names this tier. -/
theorem ofName?_name (value : Tier) : Tier.ofName? value.name = some value := by
  cases value <;> rfl

/-- A line of a rule starts with the sigil, and ends with the right-hand side or with the
equals sign. -/
theorem trim_ruleLine {id source : Text} (hid : Rule.IsNamed id)
    (hsource : ∀ c, source.getLast? = some c → Text.isBlank c = false) :
    Text.trim (ruleLine id source) = ruleLine id source := by
  obtain ⟨name, rfl, -, -⟩ := hid
  refine trim_append rfl rfl fun d hd => ?_
  rw [List.getLast?_append] at hd
  cases hlast : source.getLast? with
  | some last =>
    rw [hlast, Option.some_or] at hd
    exact hsource d (hlast.trans hd)
  | none =>
    rw [hlast, Option.none_or, List.getLast?_append_of_ne_nil _ (by decide)] at hd
    rw [← Option.some.inj hd]
    rfl

/-- A line of a rule says the id of the rule and its right-hand side. -/
theorem ofText_ruleLine {id source : Text} (hid : Rule.IsNamed id)
    (hsource : ∀ c, source.getLast? = some c → Text.isBlank c = false) :
    ofText (ruleLine id source) = .rule id source := by
  have hline := trim_ruleLine hid hsource
  rw [ofText, hline, ofTrimmed_eq_iff hline]
  exact .rule ⟨hid, [' '], rfl, by simp [ruleLine]⟩

end Line

/-! ### Building the table up -/

namespace Grammar

/-- Two additions to one id are one. -/
theorem addRule_addRule (grammar : Grammar) (id : Text) (first second : List Text) :
    (grammar.addRule id first).addRule id second = grammar.addRule id (first ++ second) :=
  eq_of_rules_eq rfl rfl (Rule.extend_extend grammar.rules id first second)

/-- Rules of new and distinct ids are added as they are. This is where it matters that a table has
no id twice. -/
theorem rules_foldl_addRule {grammar : Grammar} {rules : List Rule}
    (h : ((grammar.rules ++ rules).map Rule.id).Nodup) :
    (rules.foldl (fun grammar rule => grammar.addRule rule.id rule.replacements) grammar).rules
      = grammar.rules ++ rules := by
  induction rules generalizing grammar with
  | nil => simp
  | cons rule rest ih =>
    have hfresh : rule.id ∉ grammar.rules.map Rule.id := by
      intro hmem
      rw [List.map_append, List.nodup_append] at h
      exact h.2.2 _ hmem _ (by simp) rfl
    have hadded : (grammar.addRule rule.id rule.replacements).rules = grammar.rules ++ [rule] :=
      Rule.extend_of_notMem hfresh rule.replacements
    rw [List.foldl_cons, ih (by simpa [hadded] using h), hadded]
    simp

/-- Adding rules leaves the name alone. -/
theorem name_foldl_addRule (grammar : Grammar) (rules : List Rule) :
    (rules.foldl (fun grammar rule => grammar.addRule rule.id rule.replacements) grammar).name
      = grammar.name := by
  induction rules generalizing grammar with
  | nil => rfl
  | cons rule rest ih => exact ih _

/-- And it leaves the tier alone. -/
theorem tier_foldl_addRule (grammar : Grammar) (rules : List Rule) :
    (rules.foldl (fun grammar rule => grammar.addRule rule.id rule.replacements) grammar).tier
      = grammar.tier := by
  induction rules generalizing grammar with
  | nil => rfl
  | cons rule rest ih => exact ih _

/-- A grammar is what its rules make, added one after the other. -/
theorem ofRules_rules (grammar : Grammar) :
    ofRules grammar.name grammar.tier grammar.rules = grammar :=
  eq_of_rules_eq (name_foldl_addRule _ _) (tier_foldl_addRule _ _)
    (rules_foldl_addRule grammar.nodup_ids)

/-! ### Reading a file -/

/-- Lines make one grammar out of another, wherever they stand in a file. -/
inductive Reads : List Text → Grammar → Grammar → Prop
  | nil {grammar : Grammar} : Reads [] grammar grammar
  | cons {line : Text} {rest : List Text} {before middle after : Grammar}
      (first : ∀ number, applyLine number (.ofText line) before = .ok middle)
      (later : Reads rest middle after) : Reads (line :: rest) before after

/-- Lines that are read one part after the other are read as a whole. -/
theorem Reads.append {first second : List Text} {before middle after : Grammar}
    (h : Reads first before middle) (h' : Reads second middle after) :
    Reads (first ++ second) before after := by
  induction h with
  | nil => exact h'
  | cons first _ ih => exact .cons first (ih h')

/-- Lines that are read are applied without a fault. Their numbers matter to faults only, so they
are left open until here. -/
theorem Reads.applyLines {lines : List Text} {before after : Grammar}
    (h : Reads lines before after) (number : Nat) : applyLines number lines before = .ok after := by
  induction h generalizing number with
  | nil => rfl
  | cons first _ ih =>
    rw [Grammar.applyLines, first number]
    exact ih (number + 1)

/-- A line of a rule adds the alternatives on it. The blanks around the right-hand side are
trimmed off before it is cut. -/
theorem reads_ruleLine {id source : Text} (hid : Rule.IsNamed id)
    (hsource : ∀ c, source.getLast? = some c → Text.isBlank c = false) (grammar : Grammar) :
    Reads [Line.ruleLine id source] grammar (grammar.addRule id (alternatives source)) := by
  refine .cons (fun number => ?_) .nil
  rw [Line.ofText_ruleLine hid hsource, applyLine]

/-- The lines of replacements add them to their rule. Only the first of them can find the rule
missing, and from there on each adds to what is there. -/
theorem reads_replacements {id : Text} (hid : Rule.IsNamed id) {replacements : List Text}
    (hne : replacements ≠ []) (h : ∀ replacement ∈ replacements, replacement.IsAlternative)
    (grammar : Grammar) :
    Reads (replacements.map fun replacement => Line.ruleLine id (' ' :: replacement)) grammar
      (grammar.addRule id replacements) := by
  induction replacements generalizing grammar with
  | nil => exact absurd rfl hne
  | cons first rest ih =>
    rw [List.forall_mem_cons] at h
    have hlast : ∀ c, (' ' :: first).getLast? = some c → Text.isBlank c = false := by
      intro c hc
      rw [List.getLast?_cons_of_ne_nil h.1.ne_nil] at hc
      exact (Text.trim_eq_self_iff.mp h.1.trimmed).2 c hc
    have hfirst := reads_ruleLine hid hlast grammar
    rw [alternatives_cons h.1] at hfirst
    cases rest with
    | nil => exact hfirst
    | cons second rest =>
      have hlater := ih (List.cons_ne_nil second rest) h.2 (grammar.addRule id [first])
      rw [addRule_addRule] at hlater
      exact hfirst.append hlater

/-- The lines of a rule add this rule, also if it has no replacement. For a rule without
replacements there is a line with nothing behind the equals sign. -/
theorem reads_lines {rule : Rule} (hid : Rule.IsNamed rule.id)
    (h : ∀ replacement ∈ rule.replacements, replacement.IsAlternative) (grammar : Grammar) :
    Reads rule.lines grammar (grammar.addRule rule.id rule.replacements) := by
  obtain ⟨id, replacements⟩ := rule
  cases replacements with
  | nil => exact reads_ruleLine hid (by simp) grammar
  | cons first rest => exact reads_replacements hid (List.cons_ne_nil first rest) h grammar

/-- The lines of some rules add these rules, one after the other. -/
theorem reads_flatMap_lines {rules : List Rule} (hnamed : ∀ rule ∈ rules, Rule.IsNamed rule.id)
    (h : ∀ rule ∈ rules, ∀ replacement ∈ rule.replacements, replacement.IsAlternative)
    (grammar : Grammar) :
    Reads (rules.flatMap Rule.lines) grammar
      (rules.foldl (fun grammar rule => grammar.addRule rule.id rule.replacements) grammar) := by
  induction rules generalizing grammar with
  | nil => exact .nil
  | cons rule rest ih =>
    rw [List.forall_mem_cons] at hnamed h
    rw [List.flatMap_cons, List.foldl_cons]
    exact (reads_lines hnamed.1 h.1 grammar).append (ih hnamed.2 h.2 _)

namespace Printable

variable {grammar : Grammar}

/-- The lines of a grammar make this grammar out of the empty one of any name. The name by default
is replaced by the line with the name, which comes first. -/
theorem reads (h : grammar.Printable) (defaultName : Text) :
    Reads grammar.lines (empty defaultName .unknown) grammar := by
  have hname : ∀ number, applyLine number (.ofText (Line.nameLine grammar.name))
      (empty defaultName .unknown) = .ok (empty grammar.name .unknown) := by
    intro number
    rw [Line.ofText_nameLine h.name_ne_nil h.name_trimmed]
    rfl
  have htier : ∀ number, applyLine number (.ofText (Line.tierLine grammar.tier))
      (empty grammar.name .unknown) = .ok (empty grammar.name grammar.tier) := by
    intro number
    rw [Line.ofText_tierLine, applyLine, Line.ofName?_name]
    rfl
  have hrules := reads_flatMap_lines h.named h.alternatives (empty grammar.name grammar.tier)
  rw [show grammar.rules.foldl _ (empty grammar.name grammar.tier) = grammar from
    grammar.ofRules_rules] at hrules
  exact .cons hname (.cons htier hrules)

/-- What stands on a line of a rule is a right-hand side or nothing. All that is known of
replacements is thus known of lines. -/
theorem exists_of_mem_lines {rule : Rule} {line : Text} (hline : line ∈ rule.lines) :
    line = Line.ruleLine rule.id [] ∨
      ∃ replacement ∈ rule.replacements, line = Line.ruleLine rule.id (' ' :: replacement) := by
  obtain ⟨id, replacements⟩ := rule
  cases replacements with
  | nil => exact .inl (List.mem_singleton.mp hline)
  | cons first rest =>
    obtain ⟨replacement, hmem, rfl⟩ := List.mem_map.mp hline
    exact .inr ⟨replacement, hmem, rfl⟩

/-- Each line of a grammar stays as it is when the file is cut: there is something on it,
no feed among it, and no blank at its ends. -/
theorem line_separate (h : grammar.Printable) {line : Text} (hline : line ∈ grammar.lines) :
    line ≠ [] ∧ '\n' ∉ line ∧ Text.trim line = line := by
  rw [lines, List.mem_cons, List.mem_cons] at hline
  rcases hline with rfl | rfl | hline
  · exact ⟨List.append_ne_nil_of_left_ne_nil (by decide) _,
      Line.notMem_nameLine h.name_oneLine, Line.trim_nameLine h.name_ne_nil h.name_trimmed⟩
  · exact Line.tierLine_separate grammar.tier
  · obtain ⟨rule, hrule, hline⟩ := List.mem_flatMap.mp hline
    have hid := h.named rule hrule
    have hfeed : '\n' ∉ rule.id := by
      obtain ⟨name, hname, -, hletters⟩ := hid
      rw [hname, List.mem_cons, not_or]
      refine ⟨by decide, fun hmem => ?_⟩
      have hletter := hletters _ hmem
      simp [Text.isIdentifier] at hletter
    rcases exists_of_mem_lines hline with rfl | ⟨replacement, hmem, rfl⟩
    · refine ⟨by simp [Line.ruleLine], ?_, Line.trim_ruleLine hid (by simp)⟩
      simp [Line.ruleLine, hfeed]
    · have halternative := h.alternatives rule hrule replacement hmem
      refine ⟨by simp [Line.ruleLine], ?_, Line.trim_ruleLine hid fun c hc => ?_⟩
      · simp [Line.ruleLine, hfeed, halternative.oneLine]
      · rw [List.getLast?_cons_of_ne_nil halternative.ne_nil] at hc
        exact (Text.trim_eq_self_iff.mp halternative.trimmed).2 c hc

/-- So the lines of the file are those that were written, with the last feed and without it. -/
theorem lines_render (h : grammar.Printable) :
    Text.lines grammar.render = grammar.lines ∧
      Text.lines grammar.render.dropLast = grammar.lines := by
  have hline : ∀ line ∈ grammar.lines,
      line ≠ [] ∧ '\n' ∉ line ∧ line.getLast? ≠ some '\r' := by
    intro line hline
    obtain ⟨hne, hfeed, htrim⟩ := h.line_separate hline
    refine ⟨hne, hfeed, fun hreturn => ?_⟩
    -- A carriage return is a blank, so it would have been trimmed off.
    have hblank := (Text.trim_eq_self_iff.mp htrim).2 _ hreturn
    revert hblank
    decide
  exact ⟨Text.lines_unlines fun line hmem => (hline line hmem).2, Text.lines_dropLast_unlines hline⟩

end Printable

/-- A grammar is read back from the file that is written for it, whatever name is the
default, and also without the feed at the end of the file. -/
theorem parse_render (grammar : Grammar) (h : grammar.Printable) (defaultName : Text) :
    parse defaultName grammar.render = .ok grammar ∧
      parse defaultName grammar.render.dropLast = .ok grammar := by
  have hparse : ∀ source, Text.lines source = grammar.lines →
      parse defaultName source = .ok grammar := by
    intro source hlines
    have hroot : grammar.requireRoot = .ok grammar := by
      rw [requireRoot, checkRoot, if_pos h.root]
      rfl
    rw [parse, hlines, (h.reads defaultName).applyLines 1]
    exact hroot
  exact ⟨hparse _ h.lines_render.1, hparse _ h.lines_render.2⟩

/-- A grammar whose replacements look like other parts of a file: an equals sign, a
comment, a closing brace without an opening one, a carriage return, and bars inside of
braces that are closed late or never. -/
def disguised : Grammar :=
  Grammar.ofRules "tier ; 1".toList .moderate
    [{ id := "$go_1".toList
       replacements := ["= ; # walk".toList, "\x7d{a|{b}|c}".toList, "left\rright".toList] },
      { id := "$Main".toList, replacements := ["$go_1 \x7bname |".toList] },
      { id := "$please".toList, replacements := [] }]

/-- It is read back from its file. -/
theorem parse_render_disguised :
    disguised.Printable ∧ parse "file".toList disguised.render = .ok disguised ∧
      parse "file".toList disguised.render.dropLast = .ok disguised := by
  have hprintable : disguised.Printable := by
    have hnamed : ∀ rule ∈ disguised.rules, Rule.exportId rule.id ≠ [] ∧
        rule.id = Segment.sigil :: Rule.exportId rule.id ∧
        (Rule.exportId rule.id).all Text.isIdentifier = true := by decide +kernel
    have halternatives : ∀ rule ∈ disguised.rules, ∀ replacement ∈ rule.replacements,
        replacement ≠ [] ∧ Text.trim replacement = replacement ∧ '\n' ∉ replacement ∧
          cutAtBars 0 replacement = [replacement] := by decide +kernel
    refine ⟨by decide, rfl, by decide, by decide, ?_, ?_⟩
    · intro rule hrule
      obtain ⟨hne, hid, hname⟩ := hnamed rule hrule
      exact ⟨_, hid, hne, List.all_eq_true.mp hname⟩
    · intro rule hrule replacement hmem
      obtain ⟨hne, htrim, hfeed, hcut⟩ := halternatives rule hrule replacement hmem
      exact ⟨hne, htrim, hfeed, cutAtBars_eq_singleton_iff.mp hcut⟩
  exact ⟨hprintable, parse_render disguised hprintable _⟩

end Grammar

end TaskGrammar
