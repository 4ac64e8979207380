import TaskGrammar.Proofs.Expansion.Faults

/-!
# `TaskGrammar.Proofs.Expansion.Limit`: expansions under two limits

The limit cuts an expansion off and does nothing else. Two runs with different limits meet the same
rules, choose from the same lists and draw the same words, until the lower limit cuts its run off.
This holds because a cycle is looked for before the limit is, and nothing is drawn between the two.

* `Draw.UpTo`: a computation agrees with another one on each source on which no limit cuts it off.
  `UpTo.bind` is the rule for computations one after the other.
* `expandSegments_upTo`, `expandRule_upTo`: the recursion under the two limits.
* `taskFrom_outcome_eq_of_le`: raising the limit leaves every other outcome as it is, and the source
  where it was.
-/

set_option autoImplicit false

namespace TaskGrammar

variable {σ : Type}

namespace Draw

variable {α β : Type}

/-- A computation that a limit cuts off on this source. -/
def CutOff (draw : Draw σ α) (source : σ) : Prop :=
  ∃ id limit, (draw.outcome source).1 = .error (.recursionLimit id limit)

/-- On each source a limit cuts the first computation off, or both have the same outcome and leave
the source in the same state. The relation has a direction: nothing is said of where the second
computation is cut off. -/
def UpTo (limited free : Draw σ α) : Prop :=
  ∀ source, limited.CutOff source ∨ free.outcome source = limited.outcome source

namespace UpTo

/-- A computation agrees with itself, whether it is cut off or not. -/
protected theorem refl (draw : Draw σ α) : draw.UpTo draw :=
  fun _ => .inr rfl

/-- A computation that the limit cuts off agrees with any other, on every source. -/
theorem throw (id : Text) (limit : Nat) (free : Draw σ α) :
    (throw (.recursionLimit id limit) : Draw σ α).UpTo free :=
  fun _ => .inl ⟨id, limit, rfl⟩

/-- If the first parts agree up to a limit, and for each result the second parts do, then so do
the whole computations: the second parts start from the same state. -/
protected theorem bind {limited free : Draw σ α} {next next' : α → Draw σ β}
    (h : limited.UpTo free) (hnext : ∀ a, (next a).UpTo (next' a)) :
    (limited >>= next).UpTo (free >>= next') := by
  intro source
  rcases h source with ⟨id, limit, hcut⟩ | hsame
  · refine .inl ⟨id, limit, ?_⟩
    rw [outcome_bind]
    rcases hrun : limited.outcome source with ⟨fault | a, later⟩
    · rw [hrun] at hcut
      exact congrArg Except.error (Except.error.inj hcut)
    · rw [hrun] at hcut
      cases hcut
  · unfold CutOff
    rw [outcome_bind, outcome_bind, hsame]
    rcases limited.outcome source with ⟨fault | a, later⟩
    · exact .inr rfl
    · exact hnext a later

end UpTo

end Draw

namespace Expansion

variable [RandomSource σ] {grammar : Grammar} {entities : Entities} {limit limit' : Nat}

/-- A run of segments agrees up to the limit if each of its references does. Its wildcards and its
literal texts do not look at the limit, so they are the same. -/
theorem expandSegments_upTo {path : List Text} {segments : List Segment}
    (hrule : ∀ id, Segment.reference id ∈ segments →
      (expandRule ⟨grammar, entities, limit⟩ path id : Draw σ (List Token)).UpTo
        (expandRule ⟨grammar, entities, limit'⟩ path id)) :
    (expandSegments ⟨grammar, entities, limit⟩ path segments : Draw σ (List Token)).UpTo
      (expandSegments ⟨grammar, entities, limit'⟩ path segments) := by
  induction segments with
  | nil =>
    rw [expandSegments, expandSegments]
    exact .refl _
  | cons segment rest ih =>
    have hrest := ih fun id hid => hrule id (List.mem_cons_of_mem _ hid)
    cases segment with
    | literal text =>
      rw [expandSegments, expandSegments]
      exact hrest.bind fun _ => .refl _
    | reference id =>
      rw [expandSegments, expandSegments]
      exact (hrule id List.mem_cons_self).bind fun _ => hrest.bind fun _ => .refl _
    | wildcard wildcard =>
      rw [expandSegments, expandSegments]
      exact (Draw.UpTo.refl _).bind fun _ => hrest.bind fun _ => .refl _

/-- A rule that is met under both limits is left for the same reason, unless the lower one cuts
it off. -/
theorem expandRule_upTo (hle : limit ≤ limit') (path : List Text) (id : Text) :
    (expandRule ⟨grammar, entities, limit⟩ path id : Draw σ (List Token)).UpTo
      (expandRule ⟨grammar, entities, limit'⟩ path id) := by
  cases hrule : grammar.rule? id with
  | none =>
    rw [expandRule_of_none hrule, expandRule_of_none hrule]
    exact .refl _
  | some rule =>
    by_cases hid : id ∈ path
    · -- The cycle comes first, also where the path has reached the lower limit.
      rw [expandRule_of_mem hrule hid, expandRule_of_mem hrule hid]
      exact .refl _
    rcases Nat.lt_or_ge path.length limit with hlimit | hlimit
    · rw [expandRule_of_lt hrule hid hlimit,
        expandRule_of_lt hrule hid (Nat.lt_of_lt_of_le hlimit hle)]
      refine (Draw.UpTo.refl _).bind fun choice => ?_
      cases choice with
      | none => exact .refl _
      | some template =>
        exact expandSegments_upTo fun next _ => expandRule_upTo hle (id :: path) next
    · rw [expandRule_of_le hrule hid hlimit]
      exact .throw id limit _
termination_by grammar.unvisited path
decreasing_by exact Grammar.unvisited_cons_lt hrule hid

/-- Whatever an expansion under a limit ends in, a task, a cycle or a wildcard that nothing fits,
it ends in under every higher limit, with the source in the same state. The one exception is the
fault of the limit itself. -/
theorem taskFrom_outcome_eq_of_le (grammar : Grammar) (entities : Entities) {limit limit' : Nat}
    (hle : limit ≤ limit') (start : Text) (source : σ)
    (hdecided : ∀ id bound,
      (((Expansion.mk grammar entities limit).taskFrom start : Draw σ Task).outcome source).1
        ≠ .error (.recursionLimit id bound)) :
    ((Expansion.mk grammar entities limit').taskFrom start : Draw σ Task).outcome source
      = ((Expansion.mk grammar entities limit).taskFrom start : Draw σ Task).outcome source := by
  have hupTo : ((Expansion.mk grammar entities limit).taskFrom start : Draw σ Task).UpTo
      ((Expansion.mk grammar entities limit').taskFrom start) := by
    unfold taskFrom
    exact (expandRule_upTo hle [] start).bind fun _ => .refl _
  rcases hupTo source with ⟨id, bound, hcut⟩ | hsame
  · exact absurd hcut (hdecided id bound)
  · exact hsame

/-- The ring of the roundabout is met when the path is just as long as the limit of three, and
under the largest limit it is the same. -/
theorem taskFrom_outcome_eq_roundabout :
    (∀ id bound, (((Expansion.mk roundabout .empty 3).taskFrom "$Main".toList :
      Draw Script Task).outcome (Script.ofWords [0])).1 ≠ .error (.recursionLimit id bound)) ∧
    ((Expansion.mk roundabout .empty (UInt64.size - 1)).taskFrom "$Main".toList :
        Draw Script Task).outcome (Script.ofWords [0])
      = ((Expansion.mk roundabout .empty 3).taskFrom "$Main".toList : Draw Script Task).outcome
        (Script.ofWords [0]) := by
  have hcycle : (((Expansion.mk roundabout .empty 3).taskFrom "$Main".toList :
      Draw Script Task).outcome (Script.ofWords [0])).1
      = .error (.cyclicGrammar
          ["$Main".toList, "$turn".toList, "$back".toList, "$turn".toList]) := by
    rw [taskFrom_roundabout_ring (Nat.le_refl 3), Draw.outcome_throw]
  have hdecided : ∀ id bound, (((Expansion.mk roundabout .empty 3).taskFrom "$Main".toList :
      Draw Script Task).outcome (Script.ofWords [0])).1 ≠ .error (.recursionLimit id bound) := by
    intro id bound
    rw [hcycle]
    nofun
  exact ⟨hdecided, taskFrom_outcome_eq_of_le roundabout .empty (by decide) _ _ hdecided⟩

end Expansion

end TaskGrammar
