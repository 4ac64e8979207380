import Mathlib.Data.List.Forall2
import TaskGrammar.Proofs.Grammar.Forms
import TaskGrammar.Proofs.Grammar.Table

/-!
# `TaskGrammar.Proofs.Grammar.Outcome`: what comes of a grammar file

`Grammar.parse` goes through a file once. It stops at the first fault, a later header takes the
place of an earlier one, and a rule line adds to a rule that may be far up in the table. Here the
outcome is told from what the lines of the file say, all of them at once: `Outcome` has no
grammar that changes from line to line.

* `applyLines_eq_error_iff`: a run over lines ends with the fault of the first line that has one.
* `nameOf_concat` / `tierOf_concat` / `rulesOf_concat_rule`: what one more line changes in what
  the lines say together.
* `Collects.applyLine` / `Collects.applyLines`: a grammar has what the lines said so far, after
  one more line and after any run of lines.
* `parse_eq_iff_outcome`: a file parses to an outcome exactly if its lines have forms of which
  this is the outcome.
-/

set_option autoImplicit false

namespace TaskGrammar

namespace Line

/-! ### What one line says -/

/-- The fault of the line with a number: it is malformed, or it gives a tier that there is not. -/
def fault? (number : Nat) : Line → Option Fault
  | malformed => some (.malformedLine number)
  | tier value =>
    if Tier.ofName? value = none then some (.unknownTier (Text.normalize value)) else none
  | _ => none

/-- A line without a fault. -/
def IsSound (line : Line) : Prop :=
  ∀ number, line.fault? number = none

/-- The name that a line gives to the grammar. -/
def name? : Line → Option Text
  | name value => some value
  | _ => none

/-- The tier that a line gives to the grammar. -/
def tier? : Line → Option Tier
  | tier value => Tier.ofName? value
  | _ => none

/-- The id of the rule that a line belongs to. -/
def ruleId? : Line → Option Text
  | rule id _ => some id
  | _ => none

/-- The alternatives that a line has for a rule. -/
def alternativesOf (id : Text) : Line → List Text
  | rule other source => if other = id then alternatives source else []
  | _ => []

/-- Whether a line has a fault does not depend on where it stands. -/
theorem isSound_of_fault?_eq_none {number : Nat} {line : Line} (h : line.fault? number = none) :
    line.IsSound := by
  intro other
  cases line with
  | malformed => cases h
  | tier value => exact h
  | nothing | name _ | rule _ _ => rfl

/-- A line that belongs to no rule has no alternatives. -/
theorem alternativesOf_of_ruleId? {line : Line} (h : line.ruleId? = none) (id : Text) :
    line.alternativesOf id = [] := by
  cases line with
  | rule other source => cases h
  | nothing | name _ | tier _ | malformed => rfl

/-- Lines of which none belongs to a rule have no alternatives for it. -/
theorem flatMap_alternativesOf_of_notMem {said : List Line} {id : Text}
    (h : id ∉ said.filterMap ruleId?) : said.flatMap (alternativesOf id) = [] := by
  rw [List.flatMap_eq_nil_iff]
  intro line hline
  cases line with
  | rule other source =>
    have hother : other ≠ id := fun heq =>
      h (List.mem_filterMap.mpr ⟨_, hline, congrArg some heq⟩)
    rw [alternativesOf, if_neg hother]
  | nothing | name _ | tier _ | malformed => rfl

/-- Lines that have the forms of these texts are the texts as they are read. -/
theorem forall₂_says_iff {lines : List Text} {said : List Line} :
    List.Forall₂ Says (lines.map Text.trim) said ↔ lines.map ofText = said := by
  rw [List.forall₂_map_left_iff]
  simp only [says_trim_iff]
  rw [← List.forall₂_map_left_iff, List.forall₂_eq_eq_eq]

end Line

/-! ### What the lines of a file say together -/

/-- The rules that some lines say: their distinct ids in the order of first appearance, each with
the alternatives of all its lines in the order of the lines. -/
def rulesOf (said : List Line) : List Rule :=
  (said.filterMap Line.ruleId?).eraseDups.map fun id =>
    { id := id, replacements := said.flatMap (Line.alternativesOf id) }

/-- The name that some lines say. The last one counts. -/
def nameOf (defaultName : Text) (said : List Line) : Text :=
  (said.filterMap Line.name?).getLast?.getD defaultName

/-- The tier that some lines say. The last one counts. -/
def tierOf (said : List Line) : Tier :=
  (said.filterMap Line.tier?).getLast?.getD .unknown

namespace Grammar

/-- A grammar has what some lines say, and nothing else. -/
structure Collects (defaultName : Text) (said : List Line) (grammar : Grammar) : Prop where
  name : grammar.name = nameOf defaultName said
  tier : grammar.tier = tierOf said
  rules : grammar.rules = rulesOf said

/-- What comes of a file whose lines say this: the fault of the first line that has one, a fault
for want of a root rule, or the grammar that has what the lines say. -/
inductive Outcome (defaultName : Text) (said : List Line) : Except Fault Grammar → Prop
  | faulty (before : List Line) (line : Line) (after : List Line) {fault : Fault}
      (lines : said = before ++ line :: after) (first : ∀ other ∈ before, other.IsSound)
      (here : line.fault? (before.length + 1) = some fault) :
      Outcome defaultName said (.error fault)
  | rootless (sound : ∀ line ∈ said, line.IsSound) (root : rootId ∉ said.filterMap Line.ruleId?) :
      Outcome defaultName said (.error (.missingRoot (nameOf defaultName said)))
  | whole {grammar : Grammar} (sound : ∀ line ∈ said, line.IsSound)
      (root : rootId ∈ said.filterMap Line.ruleId?)
      (collects : Collects defaultName said grammar) : Outcome defaultName said (.ok grammar)

end Grammar

/-! ### One more line -/

/-- The rules have the ids of the rule lines, and no others. -/
theorem mem_ids_rulesOf {said : List Line} {id : Text} :
    id ∈ (rulesOf said).map Rule.id ↔ id ∈ said.filterMap Line.ruleId? :=
  Rule.mem_ids_collect

/-- A line with a name takes the place of the lines before it. -/
theorem nameOf_concat (defaultName : Text) (said : List Line) (line : Line) :
    nameOf defaultName (said ++ [line]) = line.name?.getD (nameOf defaultName said) := by
  rw [nameOf, List.filterMap_append]
  cases hname : line.name? with
  | none => simp [hname, nameOf]
  | some value => simp [hname]

/-- So does a line with a tier. -/
theorem tierOf_concat (said : List Line) (line : Line) :
    tierOf (said ++ [line]) = line.tier?.getD (tierOf said) := by
  rw [tierOf, List.filterMap_append]
  cases htier : line.tier? with
  | none => simp [htier, tierOf]
  | some value => simp [htier]

/-- A line that belongs to no rule leaves the rules as they are. -/
theorem rulesOf_concat {said : List Line} {line : Line} (h : line.ruleId? = none) :
    rulesOf (said ++ [line]) = rulesOf said := by
  unfold rulesOf
  simp only [List.filterMap_append, List.filterMap_cons_none h, List.filterMap_nil,
    List.append_nil, List.flatMap_append, List.flatMap_singleton,
    Line.alternativesOf_of_ruleId? h]

/-- A rule line adds its alternatives to its rule. The rules of all lines together are thus what
one line after the other makes of them. -/
theorem rulesOf_concat_rule (said : List Line) (id source : Text)
    (hnodup : ((rulesOf said).map Rule.id).Nodup) :
    rulesOf (said ++ [Line.rule id source])
      = Rule.extend (rulesOf said) id (alternatives source) := by
  have hids : (said ++ [Line.rule id source]).filterMap Line.ruleId?
      = said.filterMap Line.ruleId? ++ [id] := by
    rw [List.filterMap_append]
    rfl
  have hadded : ∀ other, (said ++ [Line.rule id source]).flatMap (Line.alternativesOf other)
      = said.flatMap (Line.alternativesOf other)
        ++ if id = other then alternatives source else [] := by
    intro other
    rw [List.flatMap_append, List.flatMap_singleton]
    rfl
  rw [rulesOf, hids]
  simp only [hadded]
  exact Rule.collect_concat hnodup Line.flatMap_alternativesOf_of_notMem (alternatives source)

namespace Grammar

/-! ### Applying a line -/

/-- A line is refused exactly if it has a fault, and with this fault. The grammar so far plays no
part in it. -/
theorem applyLine_eq_error_iff {number : Nat} {line : Line} {grammar : Grammar} {fault : Fault} :
    applyLine number line grammar = .error fault ↔ line.fault? number = some fault := by
  cases line with
  | tier value =>
    rw [applyLine, Line.fault?]
    cases Tier.ofName? value <;> simp
  | nothing | name _ | rule _ _ | malformed => simp [applyLine, Line.fault?]

/-- A line that is applied has no fault. -/
theorem isSound_of_applyLine {number : Nat} {line : Line} {before after : Grammar}
    (h : applyLine number line before = .ok after) : line.IsSound := by
  refine Line.isSound_of_fault?_eq_none (?_ : line.fault? number = none)
  cases hfault : line.fault? number with
  | none => rfl
  | some fault =>
    rw [applyLine_eq_error_iff.mpr hfault] at h
    cases h

variable {defaultName : Text} {said : List Line}

/-- Before the first line there is nothing but the name by default, which the first line with a
name replaces. -/
theorem collects_empty : Collects defaultName [] (empty defaultName .unknown) where
  name := rfl
  tier := rfl
  rules := rfl

/-- What lines say is one grammar. -/
theorem Collects.unique {grammar other : Grammar} (h : Collects defaultName said grammar)
    (h' : Collects defaultName said other) : grammar = other :=
  eq_of_rules_eq (h.name.trans h'.name.symm) (h.tier.trans h'.tier.symm)
    (h.rules.trans h'.rules.symm)

/-- A grammar that has what lines say has a rule for an id if one of the lines is a rule line of
it. This is how the root is found missing. -/
theorem Collects.contains_iff {grammar : Grammar} (h : Collects defaultName said grammar)
    {id : Text} : grammar.contains id = true ↔ id ∈ said.filterMap Line.ruleId? := by
  rw [contains_iff_mem_ids, h.rules, mem_ids_rulesOf]

/-- After one more line a grammar has what the line says, too. There is a case for each form of
the line; a name and a tier replace what was there, and a rule is added to. -/
theorem Collects.applyLine {before after : Grammar} (h : Collects defaultName said before)
    {number : Nat} {line : Line} (hline : applyLine number line before = .ok after) :
    Collects defaultName (said ++ [line]) after := by
  have hname := nameOf_concat defaultName said line
  have htier := tierOf_concat said line
  rw [← h.name] at hname
  rw [← h.tier] at htier
  cases line with
  | nothing | name _ =>
    cases hline
    exact ⟨hname.symm, htier.symm, h.rules.trans (rulesOf_concat rfl).symm⟩
  | tier value =>
    rw [Grammar.applyLine] at hline
    split at hline
    · rename_i tier hvalue
      cases hline
      rw [Line.tier?, hvalue] at htier
      exact ⟨hname.symm, htier.symm, h.rules.trans (rulesOf_concat rfl).symm⟩
    · cases hline
  | rule id source =>
    cases hline
    have hnodup := before.nodup_ids
    rw [h.rules] at hnodup
    have hrules := rulesOf_concat_rule said id source hnodup
    rw [← h.rules] at hrules
    exact ⟨hname.symm, htier.symm, hrules.symm⟩
  | malformed => cases hline

/-! ### A run over lines -/

/-- A run over lines ends with the fault of the first line that has one. The lines before it are
counted, and the lines after it are not looked at. -/
theorem applyLines_eq_error_iff {number : Nat} {lines : List Text} {grammar : Grammar}
    {fault : Fault} :
    applyLines number lines grammar = .error fault ↔
      ∃ before line after, lines = before ++ line :: after ∧
        (∀ other ∈ before, (Line.ofText other).IsSound) ∧
        (Line.ofText line).fault? (number + before.length) = some fault := by
  induction lines generalizing number grammar with
  | nil =>
    constructor
    · nofun
    · rintro ⟨before, line, after, hlines, -⟩
      simp at hlines
  | cons text rest ih =>
    rw [applyLines]
    cases happly : applyLine number (.ofText text) grammar with
    | error found =>
      have hfound := applyLine_eq_error_iff.mp happly
      constructor
      · rintro h
        cases h
        exact ⟨[], text, rest, rfl, by simp, hfound⟩
      · rintro ⟨before, line, after, hlines, hsound, hfault⟩
        cases before with
        | nil =>
          rw [List.nil_append, List.cons.injEq] at hlines
          obtain ⟨rfl, rfl⟩ := hlines
          exact congrArg Except.error (Option.some.inj (hfound.symm.trans hfault))
        | cons other before =>
          obtain ⟨rfl, -⟩ := List.cons.inj hlines
          rw [hsound text List.mem_cons_self number] at hfound
          cases hfound
    | ok next =>
      have hsound := isSound_of_applyLine happly
      show applyLines (number + 1) rest next = .error fault ↔ _
      rw [ih]
      constructor
      · rintro ⟨before, line, after, rfl, hbefore, hfault⟩
        refine ⟨text :: before, line, after, rfl, List.forall_mem_cons.mpr ⟨hsound, hbefore⟩, ?_⟩
        rwa [List.length_cons, ← Nat.add_assoc, Nat.add_right_comm]
      · rintro ⟨before, line, after, hlines, hbefore, hfault⟩
        cases before with
        | nil =>
          obtain ⟨rfl, -⟩ := List.cons.inj hlines
          rw [hsound] at hfault
          cases hfault
        | cons other before =>
          obtain ⟨rfl, rfl⟩ := List.cons.inj hlines
          refine ⟨before, line, after, rfl, (List.forall_mem_cons.mp hbefore).2, ?_⟩
          rwa [List.length_cons, ← Nat.add_assoc, Nat.add_right_comm] at hfault

/-- Lines that are applied have no fault. -/
theorem isSound_of_applyLines {number : Nat} {lines : List Text} {before after : Grammar}
    (h : applyLines number lines before = .ok after) :
    ∀ line ∈ lines, (Line.ofText line).IsSound := by
  induction lines generalizing number before with
  | nil => simp
  | cons text rest ih =>
    rw [applyLines] at h
    split at h
    · cases h
    · rename_i next hnext
      exact List.forall_mem_cons.mpr ⟨isSound_of_applyLine hnext, ih h⟩

/-- After a run over lines a grammar has what these lines say, too. The induction is on the lines
to come, with those before them general. -/
theorem Collects.applyLines {before after : Grammar} (h : Collects defaultName said before)
    {number : Nat} {lines : List Text} (hlines : applyLines number lines before = .ok after) :
    Collects defaultName (said ++ lines.map Line.ofText) after := by
  induction lines generalizing said number before with
  | nil =>
    cases hlines
    rwa [List.map_nil, List.append_nil]
  | cons text rest ih =>
    rw [Grammar.applyLines] at hlines
    split at hlines
    · cases hlines
    · rename_i next hnext
      rw [List.map_cons, List.append_cons]
      exact ih (h.applyLine hnext) hlines

/-! ### The whole file -/

/-- The outcome of parsing is that of the lines as they are read. The missing root is looked for
when all lines have been applied, so a fault of a line comes before it. -/
theorem outcome_parse (defaultName source : Text) :
    Outcome defaultName ((Text.lines source).map Line.ofText) (parse defaultName source) := by
  unfold parse
  cases hrun : Grammar.applyLines 1 (Text.lines source) (empty defaultName .unknown) with
  | error fault =>
    obtain ⟨before, line, after, hlines, hsound, hfault⟩ := applyLines_eq_error_iff.mp hrun
    refine .faulty (before.map Line.ofText) (Line.ofText line) (after.map Line.ofText) ?_
      (List.forall_mem_map.mpr hsound) ?_
    · rw [hlines, List.map_append, List.map_cons]
    · rwa [List.length_map, Nat.add_comm]
  | ok grammar =>
    have hsound := List.forall_mem_map.mpr (isSound_of_applyLines hrun)
    have hcollects : Collects defaultName ((Text.lines source).map Line.ofText) grammar :=
      collects_empty.applyLines hrun
    show Outcome defaultName _ grammar.requireRoot
    rw [requireRoot_eq]
    split
    · rename_i hroot
      exact .whole hsound (hcollects.contains_iff.mp hroot) hcollects
    · rename_i hroot
      rw [hcollects.name]
      exact .rootless hsound fun h => hroot (hcollects.contains_iff.mpr h)

/-- The first line with a fault is one line. If there were two, the first of them would be among
the lines before the other one, which have none. -/
theorem eq_of_first {before before' after after' : List Line} {line line' : Line}
    (hlines : before ++ line :: after = before' ++ line' :: after')
    (hbefore : ∀ other ∈ before, other.IsSound) (hline : ¬ line.IsSound)
    (hbefore' : ∀ other ∈ before', other.IsSound) (hline' : ¬ line'.IsSound) :
    before = before' ∧ line = line' := by
  rcases List.append_eq_append_iff.mp hlines with ⟨more, rfl, hrest⟩ | ⟨more, rfl, hrest⟩
  · cases more with
    | nil => exact ⟨(List.append_nil _).symm, (List.cons.inj hrest).1⟩
    | cons other more =>
      obtain ⟨rfl, -⟩ := List.cons.inj hrest
      exact absurd (hbefore' line (List.mem_append_right _ List.mem_cons_self)) hline
  · cases more with
    | nil => exact ⟨List.append_nil _, (List.cons.inj hrest).1.symm⟩
    | cons other more =>
      obtain ⟨rfl, -⟩ := List.cons.inj hrest
      exact absurd (hbefore line' (List.mem_append_right _ List.mem_cons_self)) hline'

/-- What lines say has one outcome. The three kinds of outcome exclude each other, and within each
of them the lines decide everything. -/
theorem Outcome.unique {outcome other : Except Fault Grammar} (h : Outcome defaultName said outcome)
    (h' : Outcome defaultName said other) : outcome = other := by
  have hunsound : ∀ {line : Line} {number : Nat} {fault : Fault},
      line.fault? number = some fault → ¬ line.IsSound := by
    intro line number fault hfault hsound
    rw [hsound number] at hfault
    cases hfault
  have hmem : ∀ {before after : List Line} {line : Line}, line ∈ before ++ line :: after :=
    List.mem_append_right _ List.mem_cons_self
  cases h with
  | faulty _ _ _ hlines hfirst hhere =>
    cases h' with
    | faulty _ _ _ hlines' hfirst' hhere' =>
      obtain ⟨rfl, rfl⟩ := eq_of_first (hlines.symm.trans hlines') hfirst (hunsound hhere) hfirst'
        (hunsound hhere')
      rw [Option.some.inj (hhere.symm.trans hhere')]
    | rootless hsound _ => exact absurd (hsound _ (hlines ▸ hmem)) (hunsound hhere)
    | whole hsound _ _ => exact absurd (hsound _ (hlines ▸ hmem)) (hunsound hhere)
  | rootless hsound hroot =>
    cases h' with
    | faulty _ _ _ hlines' _ hhere' => exact absurd (hsound _ (hlines' ▸ hmem)) (hunsound hhere')
    | rootless _ _ => rfl
    | whole _ hroot' _ => exact absurd hroot' hroot
  | whole hsound hroot hcollects =>
    cases h' with
    | faulty _ _ _ hlines' _ hhere' => exact absurd (hsound _ (hlines' ▸ hmem)) (hunsound hhere')
    | rootless _ hroot' => exact absurd hroot hroot'
    | whole _ _ hcollects' => rw [hcollects.unique hcollects']

/-- Each line of a file, without the blanks around it, has exactly one form. A file parses to an
outcome exactly if its lines have forms of which this is the outcome. -/
theorem parse_eq_iff_outcome (defaultName source : Text) :
    (∀ line ∈ Text.lines source, ∃! said, Line.Says (Text.trim line) said) ∧
      ∀ outcome, parse defaultName source = outcome ↔
        ∃ said, List.Forall₂ Line.Says ((Text.lines source).map Text.trim) said ∧
          Outcome defaultName said outcome := by
  have hparse := outcome_parse defaultName source
  constructor
  · intro line _
    exact ⟨Line.ofText line, Line.says_trim_iff.mpr rfl, fun said hsaid =>
      (Line.says_trim_iff.mp hsaid).symm⟩
  · intro outcome
    constructor
    · rintro rfl
      exact ⟨_, Line.forall₂_says_iff.mpr rfl, hparse⟩
    · rintro ⟨said, hsaid, houtcome⟩
      rw [← Line.forall₂_says_iff.mp hsaid] at houtcome
      exact hparse.unique houtcome

end Grammar

end TaskGrammar
