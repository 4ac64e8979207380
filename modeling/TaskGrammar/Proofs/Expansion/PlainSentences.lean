import TaskGrammar.Proofs.Expansion.Characters
import TaskGrammar.Proofs.Expansion.Success
import TaskGrammar.Proofs.Template.Boundaries

/-!
# `TaskGrammar.Proofs.Expansion.PlainSentences`: no notation in a sentence

A template may be as malformed as it likes: a sigil without a name, a reference to no rule, a
wildcard that is never closed, or one inside of another. None of this is ever said. The scanner
reads every sigil and every opening brace as the start of something, and takes as much text as it
can up to the next one, so what it calls literal has neither; and whatever else is said is the name
of an entity.

* `Segment.isPlain_of_mem_segments`: the literals of any text have no sigil and no opening brace.
* `Entities.Offers.isPlain`: an entity that is drawn has one of the names in the datasets.
* `Expansion.taskFrom_text_isPlain`: no sentence has a sigil or an opening brace, if no name has.
-/

set_option autoImplicit false

namespace TaskGrammar

/-- A text with nothing in it that would start a reference or a wildcard. -/
def Text.IsPlain (t : Text) : Prop :=
  '$' ∉ t ∧ '{' ∉ t

instance (t : Text) : Decidable t.IsPlain :=
  inferInstanceAs (Decidable (_ ∧ _))

/-- A text is plain if each of its characters is. So plainness goes over to what is put together
from plain texts. -/
theorem Text.isPlain_iff {t : Text} : t.IsPlain ↔ ∀ c ∈ t, Segment.isPlain c = true := by
  have hchar : ∀ c, Segment.isPlain c = true ↔ c ≠ '$' ∧ c ≠ '{' := by
    intro c
    simp [Segment.isPlain, Segment.sigil]
  constructor
  · intro h c hc
    exact (hchar c).mpr ⟨fun e => h.1 (e ▸ hc), fun e => h.2 (e ▸ hc)⟩
  · intro h
    exact ⟨fun hmem => ((hchar _).mp (h _ hmem)).1 rfl, fun hmem => ((hchar _).mp (h _ hmem)).2 rfl⟩

/-- A literal ends before the next sigil or opening brace, wherever in a text it was read. -/
theorem Segment.isPlain_of_mem_segments {template text : Text}
    (h : literal text ∈ segments template) : text.IsPlain :=
  (isCanonical_of_mem_segments template h).2

/-- Datasets in which no entity has a name with notation in it. -/
structure Entities.PlainNames (entities : Entities) : Prop where
  gestures : ∀ name ∈ entities.gestures.names, name.IsPlain
  names : ∀ name ∈ entities.names.names, name.IsPlain
  locations : ∀ name ∈ entities.locations.names, name.IsPlain
  categories : ∀ name ∈ entities.categories.names, name.IsPlain
  objects : ∀ name ∈ entities.objects.names, name.IsPlain
  questions : ∀ name ∈ entities.questions.names, name.IsPlain

/-- An entity that is drawn has one of the names in the datasets. The filters only take some away.
-/
theorem Entities.Offers.isPlain {entities : Entities} (h : entities.PlainNames)
    {kind : Wildcard.Kind} {token : Token} (offered : entities.Offers kind token) :
    token.text.IsPlain := by
  cases kind with
  | category =>
    obtain ⟨category, hmem, rfl⟩ := offered
    exact h.categories _ (List.mem_map_of_mem hmem)
  | gesture =>
    obtain ⟨gesture, hmem, rfl⟩ := offered
    exact h.gestures _ (List.mem_map_of_mem hmem)
  | question =>
    obtain ⟨question, hmem, rfl⟩ := offered
    exact h.questions _ (List.mem_map_of_mem hmem)
  | name filter =>
    obtain ⟨person, hmem, -, rfl⟩ := offered
    exact h.names _ (List.mem_map_of_mem hmem)
  | location filter =>
    obtain ⟨location, hmem, -, rfl⟩ := offered
    exact h.locations _ (List.mem_map_of_mem hmem)
  | object filter =>
    obtain ⟨object, hmem, -, rfl⟩ := offered
    exact h.objects _ (List.mem_map_of_mem hmem)
  | void | other key => cases offered

/-- Whatever a rule becomes, it is said without notation. The templates of the grammar are not
asked for anything. -/
theorem Yields.isPlain {grammar : Grammar} {entities : Entities} (h : entities.PlainNames)
    {id : Text} {tokens : List Token} (hyields : Yields grammar entities [.reference id] tokens) :
    Text.IsPlain (tokens.flatMap Token.text) := by
  have hliteral : ∀ {text template : Text}, Segment.literal text ∈ Segment.segments template →
      ∀ c ∈ text, Segment.isPlain c = true :=
    fun htext => Text.isPlain_iff.mp (Segment.isPlain_of_mem_segments htext)
  refine Text.isPlain_iff.mpr (hyields.forall_mem_text ?_ ?_ ?_)
  · intro rule _ template _ text htext
    exact hliteral htext
  · intro kind token offered
    exact Text.isPlain_iff.mp (offered.isPlain h)
  · -- The one segment to start with is no literal.
    intro text htext
    cases List.mem_singleton.mp htext

namespace Expansion

variable {σ : Type} [RandomSource σ]

/-- Where no name has notation in it, no sentence has: whatever the grammar, the limit and the
random source, the text of a task has no sigil and no opening brace. -/
theorem taskFrom_text_isPlain (expansion : Expansion) (h : expansion.entities.PlainNames)
    (start : Text) (source : σ) {task : Task}
    (htask : ((expansion.taskFrom start : Draw σ Task).outcome source).1 = .ok task) :
    '$' ∉ task.text ∧ '{' ∉ task.text := by
  have hcontract := taskFrom_satisfies (σ := σ) expansion Random.respects_any start
  exact (hcontract.result_of_ok trivial htask).isPlain h

/-- A template with a brace that closes nothing, a sigil without a name, a reference to no rule, a
remark that is full of notation, and a wildcard that is never closed. -/
def garbled : Text :=
  "a\x7d $ b$gone \x7bfemale meta: \x7b$x\x7d\x7d or \x7bvoid\x7b".toList

/-- The grammar with nothing but this template. -/
def garbledGrammar : Grammar :=
  Grammar.ofRules [] .unknown [{ id := Grammar.rootId, replacements := [garbled] }]

/-- The female name is told with its remark, and the rest of the notation is passed over. The lone
sigil is a reference to a rule of no letters, the last brace opens a wildcard that never closes. -/
theorem taskFrom_garbled :
    (((Expansion.mk garbledGrammar twoNames 1).taskFrom Grammar.rootId : Draw Script Task).outcome
      (Script.ofWords [0])).1
      = .ok { tokens := [.literal "a\x7d ".toList, .literal " b".toList, .literal " ".toList,
          ⟨"Eve".toList, ["gender: Female".toList, "\x7b$x\x7d".toList]⟩,
          .literal " or ".toList] } := by
  have hroot : garbledGrammar.rule? Grammar.rootId = some ⟨Grammar.rootId, [garbled]⟩ := rfl
  have hscan : Segment.segments garbled
      = [.literal "a\x7d ".toList, .reference "$".toList, .literal " b".toList,
        .reference "$gone".toList, .literal " ".toList,
        .wildcard ⟨"female".toList, " meta: \x7b$x\x7d".toList, true⟩, .literal " or ".toList,
        .wildcard ⟨"void".toList, "\x7b".toList, false⟩] := by decide +kernel
  have hbare : (expandRule ⟨garbledGrammar, twoNames, 1⟩ [Grammar.rootId] "$".toList :
      Draw Script (List Token)) = pure [] := expandRule_of_none rfl
  have hgone : (expandRule ⟨garbledGrammar, twoNames, 1⟩ [Grammar.rootId] "$gone".toList :
      Draw Script (List Token)) = pure [] := expandRule_of_none rfl
  have hname : (expandWildcard twoNames ⟨"female".toList, " meta: \x7b$x\x7d".toList, true⟩ :
      Draw Script (List Token)).outcome (Script.ofWords [0])
      = (.ok [⟨"Eve".toList, ["gender: Female".toList, "\x7b$x\x7d".toList]⟩],
        Script.ofWords [0]) := by
    have hkind : (⟨"female".toList, " meta: \x7b$x\x7d".toList, true⟩ : Wildcard).kind
        = .name .female := by decide
    have hremark : (⟨"female".toList, " meta: \x7b$x\x7d".toList, true⟩ : Wildcard).metadata
        = some "\x7b$x\x7d".toList := by decide +kernel
    have hdrawn : (drawCandidate twoNames (.name .female) : Draw Script (Option Token)).outcome
        (Script.ofWords [0])
        = (.ok (some ⟨"Eve".toList, ["gender: Female".toList]⟩), Script.ofWords [0]) := rfl
    simp only [expandWildcard, hkind, Draw.outcome_bind, hdrawn, hremark, Draw.outcome_pure]
    rfl
  have hvoid : (expandWildcard twoNames ⟨"void".toList, "\x7b".toList, false⟩ :
      Draw Script (List Token)) = pure [] := rfl
  unfold taskFrom
  rw [expandRule_of_lt hroot List.not_mem_nil (by decide)]
  simp only [chooseReplacement, pure_bind, expandChosen, hscan, expandSegments, hbare, hgone, hvoid,
    Draw.outcome_bind, hname, Draw.outcome_pure]
  rfl

/-- What is said of the template is plain, though the remark of the name is not. The remark is
kept beside the sentence and not in it. -/
theorem taskFrom_text_isPlain_garbled :
    twoNames.PlainNames ∧ ¬ garbled.IsPlain ∧
      ∃ task, (((Expansion.mk garbledGrammar twoNames 1).taskFrom Grammar.rootId :
          Draw Script Task).outcome (Script.ofWords [0])).1 = .ok task ∧
        task.text = "a\x7d  b Eve or ".toList ∧ '$' ∉ task.text ∧ '{' ∉ task.text := by
  have hnames : twoNames.PlainNames :=
    ⟨by decide, by decide, by decide, by decide, by decide, by decide⟩
  exact ⟨hnames, by decide, _, taskFrom_garbled, by decide,
    taskFrom_text_isPlain ⟨garbledGrammar, twoNames, 1⟩ hnames Grammar.rootId _ taskFrom_garbled⟩

end Expansion

end TaskGrammar
