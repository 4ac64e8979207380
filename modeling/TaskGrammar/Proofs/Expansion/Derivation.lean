import TaskGrammar.Proofs.Expansion.Equations
import TaskGrammar.Proofs.Grammar.Reachability
import TaskGrammar.Proofs.Random.Draws

/-!
# `TaskGrammar.Proofs.Expansion.Derivation`: what an expansion can say, and how it can fail

An expansion chooses; the relations of this file leave the choices open. `Yields` is
every run of tokens that segments can become, `Explains` every fault that an expansion
can end in, with what the fault says about the grammar.

* `Yields.literal_or_adds`: where a token of a derivation comes from.
* `expandWildcard_satisfies`, `chooseReplacement_satisfies`: the contracts of the two
  choices.
* `expandSegments_satisfies_pieces` / `expandSegments_satisfies`: a run of segments, given what
  each of them becomes.
* `expandRule_satisfies`: a rule at the end of a trail yields one of its derivations, or
  fails with a fault that is explained, or with a fault of the draws.
* `taskFrom_satisfies` / `task_satisfies`: the same for a whole task.
-/

set_option autoImplicit false

namespace TaskGrammar

/-- An entity that a kind of wildcard may stand for, as a token: one of the dataset that
passes the filter. -/
def Entities.Offers (entities : Entities) : Wildcard.Kind → Token → Prop
  | .category, token => ∃ category ∈ entities.categories.items, token = Entity.token category
  | .gesture, token => ∃ gesture ∈ entities.gestures.items, token = Entity.token gesture
  | .question, token => ∃ question ∈ entities.questions.items, token = Entity.token question
  | .name filter, token =>
    ∃ person ∈ entities.names.items, filter.admits person = true ∧ token = Entity.token person
  | .location filter, token =>
    ∃ location ∈ entities.locations.items,
      filter.admits location = true ∧ token = Entity.token location
  | .object filter, token =>
    ∃ object ∈ entities.objects.items, filter.admits object = true ∧ token = Entity.token object
  | .void, _ => False
  | .other _, _ => False

/-- The candidates of a kind are the tokens that the datasets offer for it. What is offered is
said without a list, so derivations do not depend on the order in which a dataset is passed over. -/
theorem Entities.mem_candidates {entities : Entities} {kind : Wildcard.Kind} {token : Token} :
    token ∈ entities.candidates kind ↔ entities.Offers kind token := by
  cases kind with
  | category | gesture | question =>
    simp only [candidates, Offers, List.mem_map, eq_comm]
  | name filter | location filter | object filter =>
    simp only [candidates, Offers, List.mem_map, List.mem_filter, eq_comm, and_assoc]
  | void | other key =>
    simp only [candidates, Offers, List.not_mem_nil]

/-- The tokens that a wildcard may add. -/
inductive Entities.Adds (entities : Entities) (wildcard : Wildcard) : List Token → Prop
  | remark (void : wildcard.kind = .void) :
      Adds entities wildcard
        (wildcard.metadata.map fun remark => { text := [], metadata := [remark] }).toList
  | entity {token : Token} (offered : entities.Offers wildcard.kind token) :
      Adds entities wildcard [token.annotate wildcard.metadata]

/-- The tokens that a run of segments may become: each segment adds its own, in order,
and a reference adds what one replacement of its rule becomes. -/
inductive Yields (grammar : Grammar) (entities : Entities) : List Segment → List Token → Prop
  | nil : Yields grammar entities [] []
  | literal {text : Text} {rest : List Segment} {tokens : List Token}
      (later : Yields grammar entities rest tokens) :
      Yields grammar entities (.literal text :: rest) (Token.literal text :: tokens)
  | wildcard {wildcard : Wildcard} {first : List Token} {rest : List Segment}
      {tokens : List Token} (added : entities.Adds wildcard first)
      (later : Yields grammar entities rest tokens) :
      Yields grammar entities (.wildcard wildcard :: rest) (first ++ tokens)
  | undefined {id : Text} {rest : List Segment} {tokens : List Token}
      (undefined : grammar.rule? id = none) (later : Yields grammar entities rest tokens) :
      Yields grammar entities (.reference id :: rest) tokens
  | empty {id : Text} {rule : Rule} {rest : List Segment} {tokens : List Token}
      (found : grammar.rule? id = some rule) (empty : rule.replacements = [])
      (later : Yields grammar entities rest tokens) :
      Yields grammar entities (.reference id :: rest) tokens
  | reference {id : Text} {rule : Rule} {template : Text} {first : List Token}
      {rest : List Segment} {tokens : List Token} (found : grammar.rule? id = some rule)
      (chosen : template ∈ rule.replacements)
      (inner : Yields grammar entities (Segment.segments template) first)
      (later : Yields grammar entities rest tokens) :
      Yields grammar entities (.reference id :: rest) (first ++ tokens)

/-- What two runs of segments yield, both in a row do. The induction is on the derivation of the
first run, which says how its last segment came about and what was left then. -/
theorem Yields.append {grammar : Grammar} {entities : Entities} {before after : List Segment}
    {first second : List Token} (h : Yields grammar entities before first)
    (h' : Yields grammar entities after second) :
    Yields grammar entities (before ++ after) (first ++ second) := by
  induction h with
  | nil => exact h'
  | literal _ ih => exact .literal ih
  | wildcard added _ ih =>
    rw [List.append_assoc]
    exact .wildcard added ih
  | undefined undefined _ ih => exact .undefined undefined ih
  | empty found empty _ ih => exact .empty found empty ih
  | reference found chosen inner _ _ ih =>
    rw [List.append_assoc]
    exact .reference found chosen inner ih

/-- The derivations of segments one after the other are one derivation. -/
theorem Yields.flatten {grammar : Grammar} {entities : Entities} {segments : List Segment}
    {pieces : List (List Token)}
    (h : List.Forall₂ (fun segment => Yields grammar entities [segment]) segments pieces) :
    Yields grammar entities segments pieces.flatten := by
  induction h with
  | nil => exact .nil
  | cons hfirst _ ih => exact hfirst.append ih

/-- A token of a derivation is literal text, or a wildcard of the grammar has added it. The
segments that the derivation starts with may only have wildcards of the grammar; the start of a
task has none. -/
theorem Yields.literal_or_adds {grammar : Grammar} {entities : Entities}
    {segments : List Segment} {tokens : List Token} (h : Yields grammar entities segments tokens)
    (hsegments : ∀ wildcard, Segment.wildcard wildcard ∈ segments → wildcard ∈ grammar.wildcards)
    {token : Token} (hmem : token ∈ tokens) :
    (∃ text, token = .literal text) ∨
      ∃ wildcard ∈ grammar.wildcards, ∃ added, entities.Adds wildcard added ∧ token ∈ added := by
  induction h with
  | nil => cases hmem
  | literal _ ih =>
    rcases List.mem_cons.mp hmem with rfl | hlater
    · exact .inl ⟨_, rfl⟩
    · exact ih (fun wildcard hw => hsegments wildcard (List.mem_cons_of_mem _ hw)) hlater
  | wildcard added _ ih =>
    rcases List.mem_append.mp hmem with hfirst | hlater
    · exact .inr ⟨_, hsegments _ List.mem_cons_self, _, added, hfirst⟩
    · exact ih (fun wildcard hw => hsegments wildcard (List.mem_cons_of_mem _ hw)) hlater
  | undefined _ _ ih | empty _ _ _ ih =>
    exact ih (fun wildcard hw => hsegments wildcard (List.mem_cons_of_mem _ hw)) hmem
  | reference found chosen _ _ ihinner ih =>
    rcases List.mem_append.mp hmem with hfirst | hlater
    · refine ihinner (fun wildcard hw => ?_) hfirst
      exact Grammar.mem_wildcards.mpr ⟨_, (Grammar.rule?_eq_some found).1, _, chosen, hw⟩
    · exact ih (fun wildcard hw => hsegments wildcard (List.mem_cons_of_mem _ hw)) hlater

namespace Expansion

/-- The bounds below which an expansion draws: the number of replacements of a rule, and
any number up to that of the candidates of a wildcard. -/
def DrawsBelow (expansion : Expansion) (bound : Nat) : Prop :=
  (∃ rule ∈ expansion.grammar.rules, bound = rule.replacements.length) ∨
    ∃ kind, bound ≤ (expansion.entities.candidates kind).length

/-- What a fault of an expansion from the rule `start` says about the grammar. -/
inductive Explains (expansion : Expansion) (start : Text) : Fault → Prop
  /-- References lead from the start to a rule that is met inside itself. -/
  | cyclicGrammar {path : List Text} {id : Text}
      (trail : expansion.grammar.Trail start path id) (repeated : id ∈ path) :
      Explains expansion start (.cyclicGrammar (id :: path).reverse)
  /-- References lead from the start through as many rules as the limit allows to
  another one. -/
  | recursionLimit {path : List Text} {id : Text}
      (trail : expansion.grammar.Trail start path id)
      (defined : expansion.grammar.contains id = true) (fresh : id ∉ path)
      (full : path.length = expansion.limit) :
      Explains expansion start (.recursionLimit id expansion.limit)
  /-- A rule within reach of the start has a wildcard that nothing fits. -/
  | noCandidates {id : Text} {rule : Rule} {template : Text} {wildcard : Wildcard}
      (reaches : expansion.grammar.Reaches start id)
      (found : expansion.grammar.rule? id = some rule) (chosen : template ∈ rule.replacements)
      (scanned : Segment.wildcard wildcard ∈ Segment.segments template)
      (notVoid : wildcard.kind ≠ .void)
      (none : ∀ token, ¬ expansion.entities.Offers wildcard.kind token) :
      Explains expansion start (.noCandidates wildcard.key)

section Contracts

variable {σ : Type} [RandomSource σ] {bounds : Nat → Prop} {inv : σ → Prop}
  {fault : Fault → Prop}

/-- Of the entities that fit a wildcard one is drawn, or there is none. Both ways to draw are
covered: from a list as it is, and from one that a filter goes over. -/
theorem drawCandidate_satisfies (hdraws : Random.Respects bounds inv fault)
    (entities : Entities) (kind : Wildcard.Kind)
    (hbounds : ∀ bound, bound ≤ (entities.candidates kind).length → bounds bound) :
    (drawCandidate entities kind : Draw σ (Option Token)).Satisfies inv fault
      (Random.IsChoice (entities.candidates kind)) := by
  unfold drawCandidate
  split
  · exact Random.drawKept_satisfies hdraws _ hbounds
  · exact Random.drawAny_satisfies hdraws _ (hbounds _ (Nat.le_refl _))

/-- A wildcard adds what it may add, or there is nothing that fits it. The fault is named with the
reason for it, since a caller has to know that the search was not just unlucky. -/
theorem expandWildcard_satisfies (hdraws : Random.Respects bounds inv fault)
    (entities : Entities) (wildcard : Wildcard)
    (hbounds : ∀ bound, bound ≤ (entities.candidates wildcard.kind).length → bounds bound) :
    (expandWildcard entities wildcard : Draw σ (List Token)).Satisfies inv
      (fun f => fault f ∨ f = .noCandidates wildcard.key ∧ wildcard.kind ≠ .void ∧
        ∀ token, ¬ entities.Offers wildcard.kind token)
      (entities.Adds wildcard) := by
  unfold expandWildcard
  split
  · rename_i hvoid
    exact Draw.Satisfies.pure (.remark hvoid)
  · rename_i kind hvoid
    -- Nothing is drawn only if there is nothing, which is the evidence for the fault.
    have hdrawn := drawCandidate_satisfies hdraws entities wildcard.kind hbounds
    refine (hdrawn.mono_fault fun f hf => .inl hf).bind fun choice hchoice => ?_
    cases choice with
    | none =>
      refine Draw.Satisfies.throw (.inr ⟨rfl, hvoid, fun token htoken => ?_⟩)
      rw [← Entities.mem_candidates, show entities.candidates wildcard.kind = [] from hchoice]
        at htoken
      exact List.not_mem_nil htoken
    | some token => exact Draw.Satisfies.pure (.entity (Entities.mem_candidates.mp hchoice))

/-- One of the replacements is chosen. Nothing is drawn where there is no choice, so `bounds` is
not asked for then. -/
theorem chooseReplacement_satisfies (hdraws : Random.Respects bounds inv fault)
    (replacements : List Text) (hlength : bounds replacements.length) :
    (chooseReplacement replacements : Draw σ (Option Text)).Satisfies inv fault
      (Random.IsChoice replacements) := by
  match replacements with
  | [] => exact Draw.Satisfies.pure rfl
  | [only] => exact Draw.Satisfies.pure List.mem_cons_self
  | first :: second :: rest =>
    refine (hdraws.below64 _ _ hlength).bind fun position _ => ?_
    exact Draw.Satisfies.pure (List.get_mem _ position)

variable {expansion : Expansion}

/-- A run of segments has the tokens of its segments one after the other. What each of them is
known to become, it becomes here. -/
theorem expandSegments_satisfies_pieces {path : List Text} {segments : List Segment}
    {result : Segment → List Token → Prop}
    (hliteral : ∀ text, Segment.literal text ∈ segments → result (.literal text) [.literal text])
    (hrule : ∀ id, Segment.reference id ∈ segments →
      (expandRule expansion path id : Draw σ (List Token)).Satisfies inv fault
        (result (.reference id)))
    (hwildcard : ∀ wildcard, Segment.wildcard wildcard ∈ segments →
      (expandWildcard expansion.entities wildcard : Draw σ (List Token)).Satisfies inv fault
        (result (.wildcard wildcard))) :
    (expandSegments expansion path segments : Draw σ (List Token)).Satisfies inv fault
      fun tokens => ∃ pieces, List.Forall₂ result segments pieces ∧ tokens = pieces.flatten := by
  induction segments with
  | nil =>
    rw [expandSegments]
    exact Draw.Satisfies.pure ⟨[], .nil, rfl⟩
  | cons segment rest ih =>
    have hrest := ih (fun text htext => hliteral text (List.mem_cons_of_mem _ htext))
      (fun id hid => hrule id (List.mem_cons_of_mem _ hid))
      fun wildcard hmem => hwildcard wildcard (List.mem_cons_of_mem _ hmem)
    cases segment with
    | literal text =>
      rw [expandSegments]
      refine hrest.bind fun tokens htokens => ?_
      obtain ⟨pieces, hpieces, rfl⟩ := htokens
      exact Draw.Satisfies.pure ⟨_, .cons (hliteral text List.mem_cons_self) hpieces, rfl⟩
    | reference id =>
      rw [expandSegments]
      refine (hrule id List.mem_cons_self).bind fun first hfirst => ?_
      refine hrest.bind fun tokens htokens => ?_
      obtain ⟨pieces, hpieces, rfl⟩ := htokens
      exact Draw.Satisfies.pure ⟨_, .cons hfirst hpieces, rfl⟩
    | wildcard wildcard =>
      rw [expandSegments]
      refine (hwildcard wildcard List.mem_cons_self).bind fun first hfirst => ?_
      refine hrest.bind fun tokens htokens => ?_
      obtain ⟨pieces, hpieces, rfl⟩ := htokens
      exact Draw.Satisfies.pure ⟨_, .cons hfirst hpieces, rfl⟩

/-- A run of segments yields one of its derivations if each of its references and each of its
wildcards does. The derivations of the segments are put one after the other, since no segment
looks at another. -/
theorem expandSegments_satisfies {path : List Text} {segments : List Segment}
    (hrule : ∀ id, Segment.reference id ∈ segments →
      (expandRule expansion path id : Draw σ (List Token)).Satisfies inv fault
        (Yields expansion.grammar expansion.entities [.reference id]))
    (hwildcard : ∀ wildcard, Segment.wildcard wildcard ∈ segments →
      (expandWildcard expansion.entities wildcard : Draw σ (List Token)).Satisfies inv fault
        (expansion.entities.Adds wildcard)) :
    (expandSegments expansion path segments : Draw σ (List Token)).Satisfies inv fault
      (Yields expansion.grammar expansion.entities segments) := by
  have hpieces : (expandSegments expansion path segments : Draw σ (List Token)).Satisfies inv fault
      fun tokens => ∃ pieces, List.Forall₂
        (fun segment => Yields expansion.grammar expansion.entities [segment]) segments pieces ∧
          tokens = pieces.flatten := by
    refine expandSegments_satisfies_pieces (fun text _ => .literal .nil) hrule ?_
    intro wildcard hmem
    refine (hwildcard wildcard hmem).mono_result fun tokens htokens => ?_
    simpa using Yields.wildcard htokens .nil
  refine hpieces.mono_result fun tokens htokens => ?_
  obtain ⟨pieces, hall, rfl⟩ := htokens
  exact .flatten hall

/-- The rule at the end of a trail yields one of its derivations. A fault is one of the
draws, or it is explained by what the trail has seen of the grammar. -/
theorem expandRule_satisfies (hdraws : Random.Respects expansion.DrawsBelow inv fault)
    {start id : Text} {path : List Text} (trail : expansion.grammar.Trail start path id)
    (hlength : path.length ≤ expansion.limit) :
    (expandRule expansion path id : Draw σ (List Token)).Satisfies inv
      (fun f => fault f ∨ expansion.Explains start f)
      (Yields expansion.grammar expansion.entities [.reference id]) := by
  cases hrule : expansion.grammar.rule? id with
  | none =>
    rw [expandRule_of_none hrule]
    exact Draw.Satisfies.pure (.undefined hrule .nil)
  | some rule =>
    have hdefined := Grammar.contains_of_rule? hrule
    -- The three outcomes of a rule that is there, in the order in which they are asked for.
    by_cases hid : id ∈ path
    · rw [expandRule_of_mem hrule hid]
      exact Draw.Satisfies.throw (.inr (.cyclicGrammar trail hid))
    rcases Nat.lt_or_ge path.length expansion.limit with hlimit | hlimit
    · rw [expandRule_of_lt hrule hid hlimit]
      have hchosen := chooseReplacement_satisfies hdraws rule.replacements
        (.inl ⟨rule, (Grammar.rule?_eq_some hrule).1, rfl⟩)
      refine (hchosen.mono_fault fun f hf => .inl hf).bind fun choice hchoice => ?_
      cases choice with
      | none => exact Draw.Satisfies.pure (.empty hrule hchoice .nil)
      | some template =>
        -- Entering the rule makes the trail one longer, which the limit still allows.
        have hinner : (expandSegments expansion (id :: path) (Segment.segments template) :
            Draw σ (List Token)).Satisfies inv (fun f => fault f ∨ expansion.Explains start f)
            (Yields expansion.grammar expansion.entities (Segment.segments template)) := by
          apply expandSegments_satisfies
          · intro next hnext
            have href : expansion.grammar.Refers id next :=
              ⟨rule, hrule, template, hchoice, hnext⟩
            exact expandRule_satisfies hdraws (trail.step hid href) hlimit
          · intro wildcard hmem
            have hadds := expandWildcard_satisfies hdraws expansion.entities wildcard
              fun bound hbound => .inr ⟨wildcard.kind, hbound⟩
            refine hadds.mono_fault fun f hf => ?_
            rcases hf with hf | ⟨rfl, hvoid, hnone⟩
            · exact .inl hf
            · exact .inr (.noCandidates trail.reaches hrule hchoice hmem hvoid hnone)
        refine hinner.mono_result fun tokens htokens => ?_
        simpa using Yields.reference hrule hchoice htokens .nil
    · rw [expandRule_of_le hrule hid hlimit]
      exact Draw.Satisfies.throw (.inr (.recursionLimit trail hdefined hid
        (Nat.le_antisymm hlength hlimit)))
termination_by expansion.grammar.unvisited path
decreasing_by exact Grammar.unvisited_cons_lt hrule hid

/-- A task from any rule is a derivation of it, or it fails for a reason. All that is asked of the
source is asked through the invariant and the bounds of its draws. -/
theorem taskFrom_satisfies (expansion : Expansion)
    (hdraws : Random.Respects expansion.DrawsBelow inv fault) (start : Text) :
    (expansion.taskFrom start : Draw σ Task).Satisfies inv
      (fun f => fault f ∨ expansion.Explains start f)
      fun task => Yields expansion.grammar expansion.entities [.reference start] task.tokens := by
  unfold taskFrom
  refine (expandRule_satisfies hdraws .here (Nat.zero_le _)).bind fun tokens htokens => ?_
  exact Draw.Satisfies.pure htokens

/-- A task is a derivation of the root rule, or it fails for a reason. -/
theorem task_satisfies (expansion : Expansion)
    (hdraws : Random.Respects expansion.DrawsBelow inv fault) :
    (expansion.task : Draw σ Task).Satisfies inv
      (fun f => fault f ∨ expansion.Explains Grammar.rootId f)
      fun task => Yields expansion.grammar expansion.entities [.reference Grammar.rootId]
        task.tokens :=
  taskFrom_satisfies expansion hdraws Grammar.rootId

end Contracts

end Expansion

end TaskGrammar
