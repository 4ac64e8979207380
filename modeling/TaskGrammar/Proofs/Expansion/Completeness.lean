import TaskGrammar.Proofs.Expansion.Derivation
import TaskGrammar.Proofs.Random.Steering

/-!
# `TaskGrammar.Proofs.Expansion.Completeness`: every derivation is some expansion

`task_satisfies` says that a task is a derivation. The converse needs a random source that
makes all choices of the derivation, and nothing in the way: no cycle within reach of the
root, as many levels as there are rules, and lists that the words of a draw can count.

* `exists_gives_expandWildcard` / `exists_gives_chooseReplacement`: each of the two choices
  can be made to come out as wanted.
* `exists_gives_expandSegments`: the words of a derivation, in the order in which the
  expansion uses them.
* `canSay_of_yields`: so the text of every derivation of the root is the text of a task.
-/

set_option autoImplicit false

namespace TaskGrammar

/-- The lists that an expansion draws from can be counted: the replacements of a rule by a
word of 64 bits, the candidates of a wildcard by one of 32 bits. -/
structure Expansion.Countable (expansion : Expansion) : Prop where
  replacements : ∀ rule ∈ expansion.grammar.rules, rule.replacements.length < UInt64.size
  candidates : ∀ kind, (expansion.entities.candidates kind).length < UInt32.size

/-- Some random words lead to a task of this text. -/
def Expansion.CanSay (expansion : Expansion) (text : Text) : Prop :=
  ∃ (words : List UInt64) (task : Task),
    ((expansion.task : Draw Script Task).outcome (Script.ofWords words)).1 = .ok task ∧
      task.text = text

namespace Expansion

/-! ### Single choices -/

/-- Every replacement can be chosen. A single one is taken without a draw, so the words are none
then; from two on the word is one that the position is drawn by. -/
theorem exists_gives_chooseReplacement {replacements : List Text}
    (hlength : replacements.length < UInt64.size) {template : Text} (h : template ∈ replacements) :
    ∃ words, (chooseReplacement replacements : Draw Script (Option Text)).Gives words
      (some template) := by
  match replacements with
  | [] => cases h
  | [only] =>
    rw [List.mem_singleton.mp h]
    exact ⟨[], .pure _⟩
  | first :: second :: rest =>
    obtain ⟨position, hposition, rfl⟩ := List.mem_iff_getElem.mp h
    obtain ⟨word, hword⟩ := Random.exists_gives_drawBelow64 (Nat.succ_pos _) hlength
      (⟨position, hposition⟩ : Fin (first :: second :: rest).length)
    exact ⟨[word] ++ [], hword.bind (.pure _)⟩

/-- Every candidate can be drawn, by whichever of the two procedures. The bound on the number of
candidates is what a position in a list of the program is below anyway. -/
theorem exists_gives_drawCandidate {entities : Entities} {kind : Wildcard.Kind}
    (hlength : (entities.candidates kind).length < UInt64.size) {token : Token}
    (h : entities.Offers kind token) :
    ∃ words, (drawCandidate entities kind : Draw Script (Option Token)).Gives words
      (some token) := by
  rw [← Entities.mem_candidates] at h
  unfold drawCandidate
  split
  · exact Random.exists_gives_drawKept hlength h
  · exact Random.exists_gives_drawAny hlength h

/-- A wildcard can be made to add whatever it may add. Where it stands for a remark only, nothing
is drawn. -/
theorem exists_gives_expandWildcard {entities : Entities} {wildcard : Wildcard}
    (hlength : (entities.candidates wildcard.kind).length < UInt64.size) {tokens : List Token}
    (h : entities.Adds wildcard tokens) :
    ∃ words, (expandWildcard entities wildcard : Draw Script (List Token)).Gives words tokens := by
  cases h with
  | remark void =>
    unfold expandWildcard
    rw [void]
    exact ⟨[], .pure _⟩
  | entity offered =>
    obtain ⟨words, hwords⟩ := exists_gives_drawCandidate hlength offered
    unfold expandWildcard
    split
    · rename_i hvoid
      rw [hvoid] at offered
      cases offered
    · exact ⟨words ++ [], hwords.bind (.pure _)⟩

/-! ### Rules and segments -/

section Rules

variable {expansion : Expansion} {path : List Text} {id : Text} {rule : Rule}

/-- A rule without replacements needs no words. -/
theorem gives_expandRule_of_empty (hrule : expansion.grammar.rule? id = some rule) (hid : id ∉ path)
    (hlimit : path.length < expansion.limit) (hempty : rule.replacements = []) :
    (expandRule expansion path id : Draw Script (List Token)).Gives [] [] := by
  rw [expandRule_of_lt hrule hid hlimit, hempty]
  exact Draw.Gives.pure []

/-- The words of a rule are those of the choice and then those of the chosen replacement. Neither
the path nor the limit is in the way, as the two hypotheses on them say. -/
theorem exists_gives_expandRule_of_chosen (hcount : expansion.Countable)
    (hrule : expansion.grammar.rule? id = some rule) (hid : id ∉ path)
    (hlimit : path.length < expansion.limit) {template : Text}
    (htemplate : template ∈ rule.replacements) {words : List UInt64} {tokens : List Token}
    (h : (expandSegments expansion (id :: path) (Segment.segments template) :
      Draw Script (List Token)).Gives words tokens) :
    ∃ words, (expandRule expansion path id : Draw Script (List Token)).Gives words tokens := by
  have hlength := hcount.replacements rule (Grammar.rule?_eq_some hrule).1
  obtain ⟨choice, hchoice⟩ := exists_gives_chooseReplacement hlength htemplate
  rw [expandRule_of_lt hrule hid hlimit]
  exact ⟨choice ++ words, hchoice.bind h⟩

/-- Where references lead back to no rule, a rule at the end of a trail is met for the first
time, and the limit allows for it. -/
theorem notMem_and_length_lt (hacyclic : expansion.grammar.Acyclic)
    (hsize : expansion.grammar.size ≤ expansion.limit)
    (trail : expansion.grammar.Trail Grammar.rootId path id)
    (hrule : expansion.grammar.rule? id = some rule) :
    id ∉ path ∧ path.length < expansion.limit := by
  have hid : id ∉ path := fun hmem => hacyclic id trail.reaches (trail.transGen_of_mem hmem)
  have hlength := trail.length_lt_size (Grammar.contains_of_rule? hrule) hid
  exact ⟨hid, Nat.lt_of_lt_of_le hlength hsize⟩

/-- A single reference is expanded as its rule is. -/
theorem expandSegments_reference :
    (expandSegments expansion path [.reference id] : Draw Script (List Token))
      = expandRule expansion path id := by
  simp only [expandSegments, pure_bind, List.append_nil, bind_pure]

variable (hcount : expansion.Countable) (hacyclic : expansion.grammar.Acyclic)
  (hsize : expansion.grammar.size ≤ expansion.limit)

include hcount hacyclic hsize

/-- For every derivation of some segments there are words on which they are expanded to its
tokens, if references have led along a trail to the rules that the segments refer to. -/
theorem exists_gives_expandSegments {segments : List Segment} {tokens : List Token}
    (h : Yields expansion.grammar expansion.entities segments tokens)
    (htrail : ∀ id, Segment.reference id ∈ segments →
      expansion.grammar.Trail Grammar.rootId path id) :
    ∃ words, (expandSegments expansion path segments : Draw Script (List Token)).Gives words
      tokens := by
  induction h generalizing path with
  | nil =>
    rw [expandSegments]
    exact ⟨[], .pure _⟩
  | literal _ ih =>
    obtain ⟨words, hwords⟩ := ih fun id hid => htrail id (List.mem_cons_of_mem _ hid)
    rw [expandSegments]
    exact ⟨words ++ [], hwords.bind (.pure _)⟩
  | wildcard added _ ih =>
    obtain ⟨first, hfirst⟩ := exists_gives_expandWildcard
      (Nat.lt_trans (hcount.candidates _) (by decide)) added
    obtain ⟨words, hwords⟩ := ih fun id hid => htrail id (List.mem_cons_of_mem _ hid)
    rw [expandSegments]
    exact ⟨first ++ (words ++ []), hfirst.bind (hwords.bind (.pure _))⟩
  | undefined undefined _ ih =>
    obtain ⟨words, hwords⟩ := ih fun id hid => htrail id (List.mem_cons_of_mem _ hid)
    rw [expandSegments, expandRule_of_none undefined]
    exact ⟨[] ++ (words ++ []), (Draw.Gives.pure _).bind (hwords.bind (.pure _))⟩
  | empty found empty _ ih =>
    obtain ⟨words, hwords⟩ := ih fun id hid => htrail id (List.mem_cons_of_mem _ hid)
    obtain ⟨hid, hlimit⟩ :=
      notMem_and_length_lt hacyclic hsize (htrail _ List.mem_cons_self) found
    have hfirst := gives_expandRule_of_empty found hid hlimit empty
    rw [expandSegments]
    exact ⟨[] ++ (words ++ []), hfirst.bind (hwords.bind (.pure _))⟩
  | reference found chosen _ _ ihinner ih =>
    obtain ⟨words, hwords⟩ := ih fun id hid => htrail id (List.mem_cons_of_mem _ hid)
    have htrail := htrail _ List.mem_cons_self
    obtain ⟨hid, hlimit⟩ := notMem_and_length_lt hacyclic hsize htrail found
    -- The template is expanded inside the rule, one step further along the trail.
    obtain ⟨inner, hinner⟩ := ihinner fun next hnext =>
      htrail.step hid ⟨_, found, _, chosen, hnext⟩
    obtain ⟨first, hfirst⟩ :=
      exists_gives_expandRule_of_chosen hcount found hid hlimit chosen hinner
    rw [expandSegments]
    exact ⟨first ++ (words ++ []), hfirst.bind (hwords.bind (.pure _))⟩

/-- The text of every derivation of the root is the text of some task. The words that lead to it
are built along the derivation; this needs that no rule refers back to itself and that the limit
is not met. -/
theorem canSay_of_yields {tokens : List Token}
    (h : Yields expansion.grammar expansion.entities [.reference Grammar.rootId] tokens) :
    expansion.CanSay (tokens.flatMap Token.text) := by
  -- The expansion starts at the root with an empty path, which is a trail of no steps.
  have htrail : ∀ id, Segment.reference id ∈ [Segment.reference Grammar.rootId] →
      expansion.grammar.Trail Grammar.rootId [] id := by
    intro id hid
    obtain rfl := Segment.reference.inj (List.mem_singleton.mp hid)
    exact .here
  obtain ⟨words, hwords⟩ := exists_gives_expandSegments hcount hacyclic hsize h htrail
  rw [expandSegments_reference] at hwords
  have htask : (expansion.task : Draw Script Task).Gives (words ++ []) { tokens := tokens } :=
    hwords.bind (.pure _)
  exact ⟨_, _, htask.outcome_ofWords, rfl⟩

end Rules

end Expansion

end TaskGrammar
