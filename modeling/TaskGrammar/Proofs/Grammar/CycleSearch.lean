import TaskGrammar.Grammar.Lint
import TaskGrammar.Proofs.Grammar.Reachability

/-!
# `TaskGrammar.Proofs.Grammar.CycleSearch`: the search finds a cycle exactly if there is one

`findCycle?` goes depth first through the references from the root. The theorems:

* `isCycle_of_searchRule` / `isCycle_of_searchAll`: what the search reports is a cycle.
  The invariant is the trail from the root to the rule that is looked at.
* `searched_of_searchRule` / `searched_of_searchAll`: what a search without a report leaves
  behind is settled. The rules that it has left again refer to such rules only, and none
  of them leads back to itself.
* `not_transGen_of_findCycle?_eq_none`: no report means that no reachable rule leads back to
  itself.
* `lint_cyclicGrammar_iff`: the verdict of the lint, whose last problem is the cycle.
-/

set_option autoImplicit false

namespace TaskGrammar.Grammar

open Relation (TransGen ReflTransGen)

variable {grammar : Grammar}

/-- A way from a rule back to itself, reachable from the root. -/
structure IsCycle (grammar : Grammar) (cycle : List Text) : Prop where
  two_le_length : 2 ≤ cycle.length
  /-- The way ends where it starts. -/
  closed : cycle.head? = cycle.getLast?
  /-- Without its last entry the way repeats no id. -/
  nodup : cycle.dropLast.Nodup
  contains : ∀ id ∈ cycle, grammar.contains id = true
  reaches : ∀ id ∈ cycle, grammar.Reaches rootId id
  /-- Each entry refers to the next. -/
  linked : cycle.IsChain grammar.Refers

/-! ### What the search reports -/

/-- The way that closes at `id` is the part of the trail from `id` on, turned round. A trail is
kept with its innermost rule first, a report starts with the outermost. -/
theorem closeCycle_eq_reverse (path : List Text) (id : Text) :
    closeCycle path id = (id :: (path.takeWhile fun other => other != id) ++ [id]).reverse := by
  unfold closeCycle
  simp

/-- Up to the last time it was at `id`, a path that holds `id` is its part before `id`. -/
theorem takeWhile_append_isPrefix {path : List Text} {id : Text} (h : id ∈ path) :
    (path.takeWhile fun other => other != id) ++ [id] <+: path := by
  induction path with
  | nil => simp at h
  | cons other rest ih =>
    by_cases heq : other = id
    · subst heq
      simp
    · have hrest : id ∈ rest := (List.mem_cons.mp h).resolve_left fun e => heq e.symm
      have hne : (other != id) = true := by simpa using heq
      rw [List.takeWhile_cons, if_pos hne, List.cons_append]
      exact List.cons_prefix_cons.mpr ⟨rfl, ih hrest⟩

/-- A rule that is met on its own trail closes a cycle. Everything that makes it one is known of
the trail, and the cycle is the part of it from the rule on. -/
theorem isCycle_closeCycle {path : List Text} {id : Text} (trail : grammar.Trail rootId path id)
    (hid : id ∈ path) : grammar.IsCycle (closeCycle path id) := by
  have hprefix := takeWhile_append_isPrefix hid
  have hmem : ∀ other ∈ closeCycle path id, other ∈ path := by
    intro other hother
    rw [closeCycle_eq_reverse, List.mem_reverse, List.cons_append, List.mem_cons] at hother
    rcases hother with rfl | hother
    · exact hid
    · exact hprefix.subset hother
  refine ⟨?_, ?_, ?_, ?_, ?_, ?_⟩
  · simp [closeCycle]
  · exact List.getLast?_concat.symm
  · -- The path has no repetition, and the cycle without its end is a part of it.
    have hnodup := trail.nodup.sublist hprefix.sublist
    rw [List.nodup_append_comm, List.singleton_append, List.nodup_cons] at hnodup
    have hdrop : (closeCycle path id).dropLast
        = id :: (path.takeWhile fun other => other != id).reverse := by
      unfold closeCycle
      exact List.dropLast_concat
    rw [hdrop, List.nodup_cons, List.mem_reverse, List.nodup_reverse]
    exact hnodup
  · intro other hother
    exact trail.contains_of_mem (hmem other hother)
  · intro other hother
    exact trail.reaches_of_mem (hmem other hother)
  · -- The trail is linked from the inside out, the cycle from the outside in.
    rw [closeCycle_eq_reverse, List.isChain_reverse]
    exact trail.linked.prefix (List.cons_prefix_cons.mpr ⟨rfl, hprefix⟩)

/-- If a search from each of some ids reports only cycles, a search from all of them does. What
has been entered grows from one id to the next, so the hypothesis is for all such lists. -/
theorem isCycle_of_searchAll {path entered cycle ids : List Text}
    (hrule : ∀ entered id, id ∈ ids → grammar.searchRule path entered id = .error cycle →
      grammar.IsCycle cycle)
    (h : grammar.searchAll path entered ids = .error cycle) : grammar.IsCycle cycle := by
  induction ids generalizing entered with
  | nil =>
    rw [searchAll] at h
    cases h
  | cons id rest ih =>
    rw [searchAll] at h
    split at h
    · rename_i found hfound
      cases h
      exact hrule entered id List.mem_cons_self hfound
    · exact ih (fun entered next hnext => hrule entered next (List.mem_cons_of_mem _ hnext)) h

/-- A search from the end of a trail reports only cycles. The recursion is that of the search,
whose trail grows with each rule that it enters. -/
theorem isCycle_of_searchRule {path entered cycle : List Text} {id : Text}
    (trail : grammar.Trail rootId path id)
    (h : grammar.searchRule path entered id = .error cycle) : grammar.IsCycle cycle := by
  rw [searchRule] at h
  split at h
  · cases h
  · rename_i rule hrule
    split at h
    · rename_i hid
      cases h
      exact isCycle_closeCycle trail hid
    · rename_i hid
      split at h
      · cases h
      · -- The path grows by `id`, so the search of its references has less to visit.
        refine isCycle_of_searchAll (fun entered' next hnext h' => ?_) h
        have href := (refers_iff_mem_references hrule).mpr hnext
        exact isCycle_of_searchRule (trail.step hid href) h'
termination_by grammar.unvisited path
decreasing_by exact unvisited_cons_lt ‹_› ‹_›

/-! ### What the search leaves behind -/

/-- A rule that the search has left again: it was entered, and it is not on the path. -/
def Left (path entered : List Text) (id : Text) : Prop :=
  id ∈ entered ∧ id ∉ path

/-- The rules that the search has left again refer to such rules only, and none of them
leads back to itself. -/
structure Settled (grammar : Grammar) (path entered : List Text) : Prop where
  refers : ∀ id next, Left path entered id → grammar.Refers id next →
    grammar.contains next = true → Left path entered next
  acyclic : ∀ id, Left path entered id → ¬ TransGen grammar.Refers id id

namespace Settled

variable {path entered : List Text} {id : Text}

/-- Before the search nothing has been left. -/
theorem start : grammar.Settled [] [] where
  refers id _ hid := by simp [Left] at hid
  acyclic id hid := by simp [Left] at hid

/-- Rules that were left lead to rules that were left. This is what makes it right to pass over a
rule that was entered before. -/
theorem left_of_reaches (h : grammar.Settled path entered) (hid : Left path entered id)
    {other : Text} (hreaches : grammar.Reaches id other)
    (hother : grammar.contains other = true) : Left path entered other := by
  induction hreaches with
  | refl => exact hid
  | tail _ href ih => exact h.refers _ _ (ih href.contains) href hother

/-- Entering a rule for the first time leaves none. -/
theorem enter (h : grammar.Settled path entered) (hid : id ∉ entered) :
    grammar.Settled (id :: path) (id :: entered) := by
  -- The rule is entered and put on the path at once, so it is not left.
  have hleft : ∀ other, Left (id :: path) (id :: entered) other ↔ Left path entered other := by
    intro other
    unfold Left
    simp only [List.mem_cons, not_or]
    constructor
    · rintro ⟨rfl | hentered, hne, hpath⟩
      · exact absurd rfl hne
      · exact ⟨hentered, hpath⟩
    · rintro ⟨hentered, hpath⟩
      exact ⟨.inr hentered, fun e => hid (e ▸ hentered), hpath⟩
  exact ⟨fun other next => by simpa only [hleft] using h.refers other next,
    fun other => by simpa only [hleft] using h.acyclic other⟩

/-- A rule all of whose references have been left may be left itself: had it led back to
itself, one of those would have led to a rule of the path. -/
theorem leave (h : grammar.Settled (id :: path) entered) (hid : id ∈ entered) (hpath : id ∉ path)
    (hrefs : ∀ next, grammar.Refers id next → grammar.contains next = true →
      Left (id :: path) entered next) : grammar.Settled path entered := by
  have hout : ∀ {other}, Left (id :: path) entered other → Left path entered other :=
    fun hother => ⟨hother.1, fun e => hother.2 (List.mem_cons_of_mem _ e)⟩
  have hcases : ∀ {other}, Left path entered other →
      other = id ∨ Left (id :: path) entered other := by
    rintro other ⟨hentered, hother⟩
    by_cases heq : other = id
    · exact .inl heq
    · exact .inr ⟨hentered, by simpa only [List.mem_cons, not_or] using ⟨heq, hother⟩⟩
  refine ⟨fun other next hother href hnext => ?_, fun other hother hcycle => ?_⟩
  · rcases hcases hother with rfl | hother
    · exact hout (hrefs next href hnext)
    · exact hout (h.refers other next hother href hnext)
  · rcases hcases hother with rfl | hother
    · -- The first reference of the cycle has been left, and then so has all that it reaches,
      -- among it the rule itself, which is still on the path.
      obtain ⟨next, href, hback⟩ := TransGen.head'_iff.mp hcycle
      have hself := contains_of_transGen hcycle
      have hnext : grammar.contains next = true := by
        rcases ReflTransGen.cases_head hback with rfl | ⟨_, hon, _⟩
        · exact hself
        · exact hon.contains
      have hin := h.left_of_reaches (hrefs next href hnext) hback hself
      exact hin.2 List.mem_cons_self
    · exact h.acyclic other hother hcycle

end Settled

/-- What a search from an id makes of the ids entered so far: it keeps them settled, takes
none back, and has left the id's rule behind it. -/
structure Searched (grammar : Grammar) (path before after : List Text) (id : Text) : Prop where
  settled : grammar.Settled path after
  subset : before ⊆ after
  left : grammar.contains id = true → Left path after id

/-- Searching several ids one after the other leaves each of them behind. The induction is
on the ids, with the ids entered so far general: each search hands its own on to the next. -/
theorem searched_of_searchAll {path entered entered' ids : List Text}
    (hrule : ∀ before after id, id ∈ ids → grammar.Settled path before →
      grammar.searchRule path before id = .ok after → grammar.Searched path before after id)
    (hsettled : grammar.Settled path entered)
    (h : grammar.searchAll path entered ids = .ok entered') :
    grammar.Settled path entered' ∧ entered ⊆ entered' ∧
      ∀ id ∈ ids, grammar.contains id = true → Left path entered' id := by
  induction ids generalizing entered with
  | nil =>
    rw [searchAll] at h
    cases h
    exact ⟨hsettled, List.Subset.refl _, by simp⟩
  | cons id rest ih =>
    rw [searchAll] at h
    split at h
    · cases h
    · rename_i middle hmiddle
      have hfirst := hrule entered middle id List.mem_cons_self hsettled hmiddle
      obtain ⟨hlast, hsub, hrest⟩ :=
        ih (fun before after next hnext => hrule before after next (List.mem_cons_of_mem _ hnext))
          hfirst.settled h
      refine ⟨hlast, List.Subset.trans hfirst.subset hsub, fun next hnext hcontains => ?_⟩
      rcases List.mem_cons.mp hnext with rfl | hnext
      · have hleft := hfirst.left hcontains
        exact ⟨hsub hleft.1, hleft.2⟩
      · exact hrest next hnext hcontains

/-- A search without a report leaves the rule behind it and everything settled. There is a case
for each way in which the search of a rule can end. -/
theorem searched_of_searchRule {path entered entered' : List Text} {id : Text}
    (hsettled : grammar.Settled path entered)
    (h : grammar.searchRule path entered id = .ok entered') :
    grammar.Searched path entered entered' id := by
  rw [searchRule] at h
  split at h
  · -- An id without a rule is not entered, and `left` asks nothing of it.
    rename_i hnone
    cases h
    refine ⟨hsettled, List.Subset.refl _, fun hid => ?_⟩
    rw [contains_eq_false_of_rule? hnone] at hid
    cases hid
  · rename_i rule hrule
    split at h
    · cases h
    · rename_i hpath
      split at h
      · -- Entered before and not on the path: it has been left already.
        rename_i hid
        cases h
        exact ⟨hsettled, List.Subset.refl _, fun _ => ⟨hid, hpath⟩⟩
      · rename_i hid
        obtain ⟨hinner, hsub, hrefs⟩ :=
          searched_of_searchAll
            (fun before after next _ hbefore h' => searched_of_searchRule hbefore h')
            (hsettled.enter hid) h
        have hentered : id ∈ entered' := hsub List.mem_cons_self
        refine ⟨hinner.leave hentered hpath fun next href hnext => ?_,
          fun other hother => hsub (List.mem_cons_of_mem _ hother), fun _ => ⟨hentered, hpath⟩⟩
        exact hrefs next ((refers_iff_mem_references hrule).mp href) hnext
termination_by grammar.unvisited path
decreasing_by exact unvisited_cons_lt ‹_› ‹_›

/-! ### The verdict -/

/-- A reported way is a cycle that the root leads to. The search starts at the root with an empty
trail, so every trail of it is one from the root. -/
theorem isCycle_of_findCycle? {cycle : List Text} (h : grammar.findCycle? = some cycle) :
    grammar.IsCycle cycle := by
  unfold findCycle? at h
  split at h
  · rename_i found hfound
    cases h
    exact isCycle_of_searchRule .here hfound
  · cases h

/-- No report means that no rule within reach of the root leads back to itself. What was settled
at the end of the search has been left, and what was left leads to no cycle. -/
theorem not_transGen_of_findCycle?_eq_none (h : grammar.findCycle? = none) {id : Text}
    (hreaches : grammar.Reaches rootId id) : ¬ TransGen grammar.Refers id id := by
  intro hcycle
  unfold findCycle? at h
  split at h
  · cases h
  · rename_i entered hentered
    have hsearched := searched_of_searchRule Settled.start hentered
    have hid := contains_of_transGen hcycle
    -- Without a root rule the search enters nothing, but then nothing is in reach either.
    have hroot : grammar.contains rootId = true := by
      rcases ReflTransGen.cases_head hreaches with heq | ⟨_, href, _⟩
      · exact heq ▸ hid
      · exact href.contains
    have hleft := hsearched.settled.left_of_reaches (hsearched.left hroot) hreaches hid
    exact hsearched.settled.acyclic id hleft hcycle

/-- The first entry of a cycle leads back to itself. A cycle has at least one step, so it is not
only equal to itself. -/
theorem IsCycle.exists_transGen {cycle : List Text} (h : grammar.IsCycle cycle) :
    ∃ id ∈ cycle, TransGen grammar.Refers id id := by
  obtain ⟨first, second, rest, rfl⟩ : ∃ first second rest, cycle = first :: second :: rest := by
    match cycle, h.two_le_length with
    | first :: second :: rest, _ => exact ⟨first, second, rest, rfl⟩
  have hlinked := List.isChain_cons_cons.mp h.linked
  have hback : ReflTransGen grammar.Refers second first := by
    have hlast : (second :: rest).getLast (List.cons_ne_nil _ _) = first := by
      have hclosed := h.closed
      rw [List.head?_cons, List.getLast?_cons_cons, List.getLast?_eq_some_getLast
        (List.cons_ne_nil _ _), Option.some.injEq] at hclosed
      exact hclosed.symm
    exact List.relationReflTransGen_of_exists_isChain_cons rest hlinked.2 hlast
  exact ⟨first, List.mem_cons_self, TransGen.head' hlinked.1 hback⟩

/-- Going through the rules finds no cycle: only the search from the root reports one. So the
report can be looked for at the end of the list alone. -/
theorem cyclicGrammar_notMem_ruleProblems (rule : Rule) (cycle : List Text) :
    Fault.cyclicGrammar cycle ∉ grammar.ruleProblems rule := by
  unfold ruleProblems templateProblems
  intro h
  rcases List.mem_append.mp h with h | h
  · split at h
    · simp at h
    · simp at h
  · obtain ⟨template, -, h⟩ := List.mem_flatMap.mp h
    obtain ⟨located, -, h⟩ := List.mem_filterMap.mp h
    split at h
    · cases h
    · split at h <;> cases h
    · split at h <;> cases h

/-- The lint ends with the cycle that the search reports, if it reports one. -/
theorem getLast?_lint_eq_cyclicGrammar_iff {cycle : List Text} :
    grammar.lint.getLast? = some (.cyclicGrammar cycle) ↔ grammar.findCycle? = some cycle := by
  unfold lint
  cases hfind : grammar.findCycle? with
  | some found => simp
  | none =>
    simp only [Option.map_none, Option.toList_none, List.append_nil]
    constructor
    · intro h
      obtain ⟨rule, -, hrule⟩ := List.mem_flatMap.mp (List.mem_of_getLast? h)
      exact absurd hrule (cyclicGrammar_notMem_ruleProblems rule cycle)
    · intro h
      cases h

/-- A cycle among the problems of the lint is the one that the search reports. -/
theorem cyclicGrammar_mem_lint_iff {cycle : List Text} :
    .cyclicGrammar cycle ∈ grammar.lint ↔ grammar.findCycle? = some cycle := by
  constructor
  · intro h
    unfold lint at h
    rcases List.mem_append.mp h with h | h
    · obtain ⟨rule, -, hrule⟩ := List.mem_flatMap.mp h
      exact absurd hrule (cyclicGrammar_notMem_ruleProblems rule cycle)
    · cases hfind : grammar.findCycle? with
      | some found => simpa [hfind, eq_comm] using h
      | none => simp [hfind] at h
  · intro h
    exact List.mem_of_getLast? (getLast?_lint_eq_cyclicGrammar_iff.mpr h)

/-- If every reference goes down in some ranking of the ids, the lint shows no cycle. A ranking
can be checked by evaluation where the search of a whole grammar cannot. -/
theorem cyclicGrammar_notMem_lint (rank : Text → Nat)
    (hrank : ∀ rule ∈ grammar.rules, ∀ next ∈ rule.references, rank next < rank rule.id)
    (cycle : List Text) : .cyclicGrammar cycle ∉ grammar.lint := by
  intro h
  obtain ⟨id, -, hid⟩ := (isCycle_of_findCycle? (cyclicGrammar_mem_lint_iff.mp h)).exists_transGen
  -- Down along the cycle, the rank of `id` is below itself.
  exact Nat.lt_irrefl _ (rank_lt_of_transGen rank hrank hid)

/-- The lint ends with a cycle exactly when a rule within reach of the root leads back to
itself, and the cycle that it then shows is one: a way within reach of the root along
references, closed, and without another repetition. -/
theorem lint_cyclicGrammar_iff (grammar : Grammar) :
    ((∃ cycle, grammar.lint.getLast? = some (.cyclicGrammar cycle)) ↔
      ∃ id, grammar.contains id = true ∧ grammar.Reaches rootId id ∧
        TransGen grammar.Refers id id) ∧
    ∀ cycle, grammar.lint.getLast? = some (.cyclicGrammar cycle) → grammar.IsCycle cycle := by
  simp only [getLast?_lint_eq_cyclicGrammar_iff]
  refine ⟨⟨?_, ?_⟩, fun cycle => isCycle_of_findCycle?⟩
  · rintro ⟨cycle, hcycle⟩
    have h := isCycle_of_findCycle? hcycle
    obtain ⟨id, hmem, hid⟩ := h.exists_transGen
    exact ⟨id, h.contains id hmem, h.reaches id hmem, hid⟩
  · rintro ⟨id, -, hreaches, hid⟩
    cases hfind : grammar.findCycle? with
    | some cycle => exact ⟨cycle, rfl⟩
    | none => exact absurd hid (not_transGen_of_findCycle?_eq_none hfind hreaches)

end TaskGrammar.Grammar
