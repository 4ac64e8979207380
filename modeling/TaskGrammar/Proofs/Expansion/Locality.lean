import TaskGrammar.Proofs.Expansion.Derivation
import TaskGrammar.Random.Script

/-!
# `TaskGrammar.Proofs.Expansion.Locality`: what an expansion does not look at

A grammar can have rules that no way from the root leads to, and a session has datasets that no
wildcard on such a way draws from. An expansion reads none of them. This is a statement about two
runs: if two grammars agree within reach of the root, and the datasets agree as far as the wildcards
there draw from them, then the two expansions are one computation. It draws the same words from any
source and has the same result or the same fault.

* `Grammar.AgreeFrom`, `Grammar.Asks`, `Entities.AgreeOn`: agreement, as far as it matters.
* `expandWildcard_congr`, `expandSegments_congr`, `expandRule_congr`: the three parts of an
  expansion.
* `task_outcome_eq`: a task depends only on what the root reaches.
* `Grammar.mem_of_reaches`: how to know that a list of ids is all that is reached.
-/

set_option autoImplicit false

namespace TaskGrammar

/-! ### Agreement -/

/-- Two grammars have the same rules within reach of a rule, and lack the same. -/
def Grammar.AgreeFrom (start : Text) (first second : Grammar) : Prop :=
  ∀ id, first.Reaches start id → second.rule? id = first.rule? id

/-- The collection that a segment draws from: that of a wildcard. -/
def Segment.collection? : Segment → Option Collection
  | .wildcard asked => asked.kind.collection?
  | .reference _ => none
  | .literal _ => none

/-- Some wildcard within reach of a rule draws from a collection. -/
def Grammar.Asks (grammar : Grammar) (start : Text) (collection : Collection) : Prop :=
  ∃ id rule template segment, grammar.Reaches start id ∧ grammar.rule? id = some rule ∧
    template ∈ rule.replacements ∧ segment ∈ Segment.segments template ∧
    segment.collection? = some collection

/-- Two sessions have the same entities in one of the collections, in the same order. -/
def Entities.AgreeOn (first second : Entities) : Collection → Prop
  | .gestures => first.gestures.items = second.gestures.items
  | .names => first.names.items = second.names.items
  | .locations => first.locations.items = second.locations.items
  | .objects => first.objects.items = second.objects.items
  | .categories => first.categories.items = second.categories.items
  | .questions => first.questions.items = second.questions.items

/-- The candidates for a wildcard are all in one collection, so entities that agree on it have the
same ones in the same order. -/
theorem Entities.candidates_congr {first second : Entities} {kind : Wildcard.Kind}
    (h : ∀ collection, kind.collection? = some collection → first.AgreeOn second collection) :
    first.candidates kind = second.candidates kind := by
  cases kind with
  | void | other key => rfl
  | category | gesture | question =>
    exact congrArg (List.map Entity.token) (h _ rfl)
  | name filter | location filter | object filter =>
    exact congrArg (fun items => (items.filter filter.admits).map Entity.token) (h _ rfl)

/-- Two computations with the same first part are the same if they go on in the same way from each
result that the first part can have. -/
theorem Draw.bind_congr_of_satisfies {σ α β : Type} {draw : Draw σ α} {fault : Fault → Prop}
    {result : α → Prop} (h : draw.Satisfies (fun _ => True) fault result)
    {next next' : α → Draw σ β} (hnext : ∀ a, result a → next a = next' a) :
    draw >>= next = draw >>= next' := by
  refine funext fun source => ?_
  show (draw >>= next).outcome source = (draw >>= next').outcome source
  have hdraw := h source trivial
  rw [outcome_bind, outcome_bind]
  split at hdraw
  · rw [hnext _ hdraw.1]
  · rfl

/-! ### The parts of an expansion -/

namespace Expansion

variable {σ : Type} [RandomSource σ] {grammar grammar' : Grammar} {entities entities' : Entities}
  {limit : Nat}

/-- A wildcard is expanded in the same way where the dataset that it asks for is the same. What
the other datasets hold does not matter. -/
theorem expandWildcard_congr {wildcard : Wildcard}
    (h : ∀ collection, wildcard.kind.collection? = some collection →
      entities.AgreeOn entities' collection) :
    (expandWildcard entities wildcard : Draw σ (List Token))
      = expandWildcard entities' wildcard := by
  have hdraw : (drawCandidate entities wildcard.kind : Draw σ (Option Token))
      = drawCandidate entities' wildcard.kind := by
    unfold drawCandidate
    rw [Entities.candidates_congr h]
  unfold expandWildcard
  split
  · rfl
  · rw [hdraw]

/-- A run of segments is expanded in the same way if its references and its wildcards are. The
equation is one between computations, so it holds for every source at once. -/
theorem expandSegments_congr {expansion expansion' : Expansion} {path : List Text}
    {segments : List Segment}
    (hrule : ∀ id, Segment.reference id ∈ segments →
      (expandRule expansion path id : Draw σ (List Token)) = expandRule expansion' path id)
    (hwildcard : ∀ wildcard, Segment.wildcard wildcard ∈ segments →
      (expandWildcard expansion.entities wildcard : Draw σ (List Token))
        = expandWildcard expansion'.entities wildcard) :
    (expandSegments expansion path segments : Draw σ (List Token))
      = expandSegments expansion' path segments := by
  induction segments with
  | nil => rw [expandSegments, expandSegments]
  | cons segment rest ih =>
    have hrest := ih (fun id hid => hrule id (List.mem_cons_of_mem _ hid))
      fun wildcard hw => hwildcard wildcard (List.mem_cons_of_mem _ hw)
    cases segment with
    | literal text => rw [expandSegments, expandSegments, hrest]
    | reference id => rw [expandSegments, expandSegments, hrest, hrule id List.mem_cons_self]
    | wildcard wildcard =>
      rw [expandSegments, expandSegments, hrest, hwildcard wildcard List.mem_cons_self]

/-- A rule that the start reaches is expanded in the same way. The path is the same in both, so
both meet the same cycle and the same limit. -/
theorem expandRule_congr {start : Text} (hrules : grammar.AgreeFrom start grammar')
    (hdatasets : ∀ collection, grammar.Asks start collection →
      entities.AgreeOn entities' collection)
    {path : List Text} {id : Text} (hreaches : grammar.Reaches start id) :
    (expandRule ⟨grammar, entities, limit⟩ path id : Draw σ (List Token))
      = expandRule ⟨grammar', entities', limit⟩ path id := by
  -- The rule is missing on both sides, or it is the same and is left on both for the same reason.
  cases hrule : grammar.rule? id with
  | none =>
    have hrule' : grammar'.rule? id = none := (hrules id hreaches).trans hrule
    rw [expandRule_of_none hrule, expandRule_of_none hrule']
  | some rule =>
    have hrule' : grammar'.rule? id = some rule := (hrules id hreaches).trans hrule
    by_cases hid : id ∈ path
    · rw [expandRule_of_mem hrule hid, expandRule_of_mem hrule' hid]
    rcases Nat.lt_or_ge path.length limit with hlimit | hlimit
    · rw [expandRule_of_lt hrule hid hlimit, expandRule_of_lt hrule' hid hlimit]
      have hdraws : Random.Respects (fun _ => True) (fun _ : σ => True) (· = .endlessDraw) :=
        Random.respects_any
      have hchoice := chooseReplacement_satisfies hdraws rule.replacements trivial
      refine Draw.bind_congr_of_satisfies hchoice fun choice hchosen => ?_
      cases choice with
      | none => rfl
      | some template =>
        refine expandSegments_congr (fun next hnext => ?_) fun wildcard hw => ?_
        · have href : grammar.Refers id next := ⟨rule, hrule, template, hchosen, hnext⟩
          exact expandRule_congr hrules hdatasets (hreaches.tail href)
        · refine expandWildcard_congr fun collection hcollection => hdatasets collection ?_
          exact ⟨id, rule, template, _, hreaches, hrule, hchosen, hw, hcollection⟩
    · rw [expandRule_of_le hrule hid hlimit, expandRule_of_le hrule' hid hlimit]
termination_by grammar.unvisited path
decreasing_by exact Grammar.unvisited_cons_lt hrule hid

/-- A task depends only on the rules that the root reaches, on the ids that are missing among
them, and on the collections that wildcards in these rules draw from. With two grammars and two
sessions that agree on these, a task comes out the same or fails in the same way, and the source
is left in the same state. -/
theorem task_outcome_eq {grammar grammar' : Grammar} {entities entities' : Entities}
    (hrules : grammar.AgreeFrom Grammar.rootId grammar')
    (hdatasets : ∀ collection, grammar.Asks Grammar.rootId collection →
      entities.AgreeOn entities' collection)
    {σ : Type} [RandomSource σ] (limit : Nat) (source : σ) :
    ((Expansion.mk grammar entities limit).task : Draw σ Task).outcome source
      = ((Expansion.mk grammar' entities' limit).task : Draw σ Task).outcome source := by
  unfold task taskFrom
  rw [expandRule_congr hrules hdatasets Relation.ReflTransGen.refl]

end Expansion

/-! ### Two sessions with one task -/

/-- What is reached stays among some ids that refer to no others. This is how a bound on what is
reached is found for a concrete grammar, where such ids can be listed. -/
theorem Grammar.mem_of_reaches {grammar : Grammar} {start id : Text} {ids : List Text}
    (hstart : start ∈ ids)
    (hclosed : ∀ rule ∈ grammar.rules, rule.id ∈ ids → ∀ next ∈ rule.references, next ∈ ids)
    (h : grammar.Reaches start id) : id ∈ ids := by
  induction h with
  | refl => exact hstart
  | tail _ href ih =>
    obtain ⟨rule, hrule, template, htemplate, hscan⟩ := href
    obtain ⟨hmem, rfl⟩ := rule?_eq_some hrule
    exact hclosed rule hmem ih _ (Rule.mem_references.mpr ⟨template, htemplate, hscan⟩)

/-- The rules of an errand, in order. -/
def errandRules : List Rule :=
  [⟨Grammar.rootId, ["go to the {room} $polite".toList, "stay in the {room}".toList]⟩,
    ⟨"$polite".toList, ["please".toList, "now $missing".toList]⟩]

/-- A grammar for an errand and for a greeting, and one for the errand with its rules in another
order. -/
def errandGrammar : Bool → Grammar
  | true => Grammar.ofRules [] .easy (errandRules ++ [⟨"$greet".toList, ["meet {name}".toList]⟩])
  | false => Grammar.ofRules [] .high errandRules.reverse

/-- A session with two rooms, and with or without somebody to meet. -/
def errandEntities : Bool → Entities
  | true => (Entities.empty.withNames [⟨"Eve".toList, .female⟩]).withLocations
      [.ofRoom "kitchen".toList, .ofRoom "hall".toList]
  | false => (Entities.empty.withGestures [⟨"waving".toList, .easy⟩]).withLocations
      [.ofRoom "kitchen".toList, .ofRoom "hall".toList]

/-- The ids that an errand can come to; one of them has no rule. -/
def errandIds : List Text :=
  [Grammar.rootId, "$polite".toList, "$missing".toList]

/-- The two grammars have the same rules for every id that an errand can come to, although one of
them has a greeting as well and the order is not the same. -/
theorem agreeFrom_errandGrammar :
    (errandGrammar true).AgreeFrom Grammar.rootId (errandGrammar false) := by
  intro id hreaches
  have hmem : id ∈ errandIds := Grammar.mem_of_reaches (by decide +kernel) (by decide +kernel)
    hreaches
  have hsame : ∀ id ∈ errandIds,
      (errandGrammar false).rule? id = (errandGrammar true).rule? id := by
    decide +kernel
  exact hsame id hmem

/-- An errand asks for locations only. The rule that greets by name is in the grammar, but nothing
that is reached refers to it. -/
theorem eq_locations_of_asks {collection : Collection}
    (h : (errandGrammar true).Asks Grammar.rootId collection) : collection = .locations := by
  obtain ⟨id, rule, template, segment, hreaches, hrule, htemplate, hsegment, hcollection⟩ := h
  have hmem : id ∈ errandIds := Grammar.mem_of_reaches (by decide +kernel) (by decide +kernel)
    hreaches
  have hasked : ∀ rule ∈ (errandGrammar true).rules, rule.id ∈ errandIds →
      ∀ template ∈ rule.replacements, ∀ segment ∈ Segment.segments template,
        segment.collection? = none ∨ segment.collection? = some .locations := by
    decide +kernel
  obtain ⟨hrules, rfl⟩ := Grammar.rule?_eq_some hrule
  rcases hasked rule hrules hmem template htemplate segment hsegment with hnone | hlocations
  · rw [hnone] at hcollection
    cases hcollection
  · exact Option.some.inj (hcollection.symm.trans hlocations)

/-- Neither the greeting nor the person to meet nor the order of the rules matters to an errand.
The grammars differ and so do the names, so it is not the trivial case. -/
theorem Expansion.task_outcome_eq_errand :
    (errandGrammar true).AgreeFrom Grammar.rootId (errandGrammar false) ∧
    (∀ collection, (errandGrammar true).Asks Grammar.rootId collection →
      (errandEntities true).AgreeOn (errandEntities false) collection) ∧
    errandGrammar true ≠ errandGrammar false ∧
    (errandEntities true).names.items ≠ (errandEntities false).names.items ∧
    ((Expansion.mk (errandGrammar true) (errandEntities true) 3).task : Draw Script Task).outcome
        (Script.ofWords [0, 7])
      = ((Expansion.mk (errandGrammar false) (errandEntities false) 3).task :
          Draw Script Task).outcome (Script.ofWords [0, 7]) := by
  have hdatasets : ∀ collection, (errandGrammar true).Asks Grammar.rootId collection →
      (errandEntities true).AgreeOn (errandEntities false) collection := by
    intro collection hasks
    rw [eq_locations_of_asks hasks]
    rfl
  exact ⟨agreeFrom_errandGrammar, hdatasets, by decide +kernel, by decide +kernel,
    task_outcome_eq agreeFrom_errandGrammar hdatasets 3 _⟩

end TaskGrammar
