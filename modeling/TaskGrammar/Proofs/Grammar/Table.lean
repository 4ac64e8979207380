import Mathlib.Data.List.Nodup
import Mathlib.Data.List.Perm.Subperm
import TaskGrammar.Grammar.Basic

/-!
# `TaskGrammar.Proofs.Grammar.Table`: looking rules up

The table holds each id once, so looking an id up and going through the rules tell the
same story. The theorems:

* `contains_iff_mem_ids` / `contains_iff_rule?`: an id is there exactly when some rule of
  the table has it, and exactly when the lookup finds a rule.
* `rule?_of_mem`: the lookup of a rule's id finds this very rule, and no other of that id.
* `Rule.mem_references`: the references of a rule are those that the scans of its
  templates show.
* `mem_wildcards`: likewise for the wildcards of a whole grammar.
* `Rule.extend_of_mem` / `Rule.extend_of_notMem`: where an addition to the table is made.
* `Rule.collect_concat`: what an addition does to rules that are told by their ids.
* `Rule.extend_comm`: additions to two ids can be made in either order if one of them is there.
* `checkExportable_eq_ok_iff`: the check of the ids passes exactly if none is reserved.
-/

set_option autoImplicit false

namespace TaskGrammar

/-- A template refers to an id exactly when its scan has that reference. The references of a
template are listed in their order, which membership does not need. -/
theorem Segment.mem_references {template id : Text} :
    id ∈ Segment.references template ↔ Segment.reference id ∈ Segment.segments template := by
  unfold Segment.references
  rw [List.mem_filterMap]
  constructor
  · rintro ⟨segment, hmem, hid⟩
    cases segment with
    | reference other =>
      simp only [Option.some.injEq] at hid
      exact hid ▸ hmem
    | literal text => simp at hid
    | wildcard wildcard => simp at hid
  · intro h
    exact ⟨_, h, rfl⟩

/-- A rule refers to an id exactly when the scan of one of its templates does. -/
theorem Rule.mem_references {rule : Rule} {id : Text} :
    id ∈ rule.references
      ↔ ∃ template ∈ rule.replacements, Segment.reference id ∈ Segment.segments template := by
  unfold Rule.references
  simp only [List.mem_flatMap, Segment.mem_references]

/-- Another occurrence at the end is a first one, or it is no longer there. The first occurrences
of a list stay where they are when the list grows. -/
theorem eraseDups_append_singleton (names : List Text) (last : Text) :
    (names ++ [last]).eraseDups
      = if last ∈ names then names.eraseDups else names.eraseDups ++ [last] := by
  rw [List.eraseDups_append, List.removeAll, List.filter_cons, List.elem_eq_mem, List.filter_nil]
  by_cases hlast : last ∈ names
  · rw [if_pos hlast, decide_eq_true hlast]
    exact List.append_nil _
  · rw [if_neg hlast, decide_eq_false hlast]
    rfl

/-! ### Additions -/

namespace Rule

/-- Two additions to an id are one. The second one finds the rule that the first one has made or
has added to. -/
theorem extend_extend (rules : List Rule) (id : Text) (first second : List Text) :
    extend (extend rules id first) id second = extend rules id (first ++ second) := by
  induction rules with
  | nil => simp [extend]
  | cons rule rest ih =>
    by_cases hid : rule.id = id
    · simp [extend, hid]
    · simp [extend, hid, ih]

/-- A new id comes last. The rules before it keep their places and their replacements. -/
theorem extend_of_notMem {rules : List Rule} {id : Text} (h : id ∉ rules.map Rule.id)
    (replacements : List Text) :
    extend rules id replacements = rules ++ [{ id := id, replacements := replacements }] := by
  induction rules with
  | nil => rfl
  | cons rule rest ih =>
    rw [List.map_cons, List.mem_cons, not_or] at h
    simp [extend, Ne.symm h.1, ih h.2]

/-- An addition to an id that is there is made to its rule, and to no other. -/
theorem extend_of_mem {rules : List Rule} (hnodup : (rules.map Rule.id).Nodup) {id : Text}
    (h : id ∈ rules.map Rule.id) (replacements : List Text) :
    extend rules id replacements = rules.map fun rule =>
      if rule.id = id then { rule with replacements := rule.replacements ++ replacements }
      else rule := by
  induction rules with
  | nil => cases h
  | cons rule rest ih =>
    rw [List.map_cons, List.nodup_cons] at hnodup
    rw [extend, List.map_cons]
    split
    · rename_i hid
      -- The id is in the table once, so the rules behind this one are left alone.
      have hrest : ∀ other ∈ rest, other.id ≠ id := fun other hmem heq =>
        hnodup.1 (hid ▸ heq ▸ List.mem_map_of_mem hmem)
      congr 1
      rw [← List.map_id rest, List.map_map]
      refine List.map_congr_left fun other hmem => ?_
      simp [hrest other hmem]
    · rename_i hid
      rw [List.map_cons, List.mem_cons] at h
      rw [ih hnodup.2 (h.resolve_left fun heq => hid heq.symm)]

/-- A rule for each id of some names, with what is given for the id. -/
def collect (names : List Text) (given : Text → List Text) : List Rule :=
  names.eraseDups.map fun id => { id := id, replacements := given id }

/-- The ids of the rules are the names, each where it came up first. The replacements do not play
a part in this. -/
theorem ids_collect (names : List Text) (given : Text → List Text) :
    (collect names given).map Rule.id = names.eraseDups := by
  rw [collect, List.map_map]
  exact List.map_id _

/-- So they are these names and no others. -/
theorem mem_ids_collect {names : List Text} {given : Text → List Text} {id : Text} :
    id ∈ (collect names given).map Rule.id ↔ id ∈ names := by
  rw [ids_collect, List.mem_eraseDups]

/-- One more name, and more that is given for it, is an addition. Nothing is given for an id that
is not among the names. -/
theorem collect_concat {names : List Text} {given : Text → List Text} {id : Text}
    (hnodup : ((collect names given).map Rule.id).Nodup) (hnew : id ∉ names → given id = [])
    (replacements : List Text) :
    collect (names ++ [id]) (fun other => given other ++ if id = other then replacements else [])
      = extend (collect names given) id replacements := by
  rw [collect, eraseDups_append_singleton]
  by_cases hmem : id ∈ names
  · rw [if_pos hmem, extend_of_mem hnodup (mem_ids_collect.mpr hmem), collect, List.map_map]
    refine List.map_congr_left fun other _ => ?_
    by_cases hother : other = id
    · simp [hother]
    · simp [hother, Ne.symm hother]
  · have hmem' : id ∉ (collect names given).map Rule.id := fun h => hmem (mem_ids_collect.mp h)
    rw [if_neg hmem, extend_of_notMem hmem', collect, List.map_append, List.map_singleton,
      if_pos rfl, hnew hmem, List.nil_append]
    congr 1
    -- None of the other ids is the new one.
    refine List.map_congr_left fun other hother => ?_
    have hne : id ≠ other := fun heq => hmem (heq ▸ List.mem_eraseDups.mp hother)
    rw [if_neg hne, List.append_nil]

/-- Additions to two different ids can be made in either order if one of the ids is there. -/
theorem extend_comm {rules : List Rule} {id other : Text} (hne : id ≠ other)
    (hid : id ∈ rules.map Rule.id) (first second : List Text) :
    extend (extend rules id first) other second = extend (extend rules other second) id first := by
  induction rules with
  | nil => cases hid
  | cons rule rest ih =>
    by_cases hrule : rule.id = id
    · simp [extend, hrule, hne]
    · have hrest : id ∈ rest.map Rule.id :=
        (List.mem_cons.mp hid).resolve_left fun h => hrule h.symm
      by_cases hother : rule.id = other
      · simp [extend, hother, hne.symm]
      · simp [extend, hrule, hother, ih hrest]

end Rule

/-! ### Lookups -/

namespace Grammar

/-- A grammar is told by its name, its tier and its rules. The proof that no id is there twice
does not tell two grammars apart. -/
theorem eq_of_rules_eq {grammar other : Grammar} (hname : grammar.name = other.name)
    (htier : grammar.tier = other.tier) (hrules : grammar.rules = other.rules) :
    grammar = other := by
  cases grammar
  cases other
  simp_all

/-- The wildcards in the templates of all rules, in order. -/
def wildcards (grammar : Grammar) : List Wildcard :=
  grammar.rules.flatMap fun rule => rule.replacements.flatMap fun template =>
    (Segment.segments template).filterMap fun segment =>
      match segment with
      | .wildcard wildcard => some wildcard
      | _ => none

variable {grammar : Grammar}

/-- A grammar has a wildcard exactly when the scan of one of its templates has it. -/
theorem mem_wildcards {wildcard : Wildcard} :
    wildcard ∈ grammar.wildcards ↔ ∃ rule ∈ grammar.rules, ∃ template ∈ rule.replacements,
      Segment.wildcard wildcard ∈ Segment.segments template := by
  unfold wildcards
  simp only [List.mem_flatMap, List.mem_filterMap]
  constructor
  · rintro ⟨rule, hrule, template, htemplate, segment, hsegment, h⟩
    cases segment with
    | wildcard other =>
      simp only [Option.some.injEq] at h
      exact ⟨rule, hrule, template, htemplate, h ▸ hsegment⟩
    | literal text => simp at h
    | reference id => simp at h
  · rintro ⟨rule, hrule, template, htemplate, h⟩
    exact ⟨rule, hrule, template, htemplate, _, h, rfl⟩

/-- An id is there exactly when it is the id of a rule of the table. -/
theorem contains_iff_mem_ids {id : Text} :
    grammar.contains id = true ↔ id ∈ grammar.rules.map Rule.id := by
  unfold contains
  simp only [List.any_eq_true, beq_iff_eq, List.mem_map]

/-- An id is there exactly when the lookup finds a rule. -/
theorem contains_iff_rule? {id : Text} :
    grammar.contains id = true ↔ ∃ rule, grammar.rule? id = some rule := by
  unfold contains rule?
  rw [← Option.isSome_iff_exists, List.find?_isSome, List.any_eq_true]

/-- An id for which a rule is found is there. -/
theorem contains_of_rule? {id : Text} {rule : Rule} (h : grammar.rule? id = some rule) :
    grammar.contains id = true :=
  contains_iff_rule?.mpr ⟨rule, h⟩

/-- And one for which none is found is not. -/
theorem contains_eq_false_of_rule? {id : Text} (h : grammar.rule? id = none) :
    grammar.contains id = false := by
  rw [← Bool.not_eq_true, contains_iff_rule?, h]
  simp

/-- The lookup of a rule's id finds the rule: no other rule has the id. Without this a lookup
would only find the first rule of the id. -/
theorem rule?_of_mem {rule : Rule} (h : rule ∈ grammar.rules) :
    grammar.rule? rule.id = some rule := by
  obtain ⟨found, hfound⟩ := contains_iff_rule?.mp
    (contains_iff_mem_ids.mpr (List.mem_map_of_mem h))
  obtain ⟨hmem, hid⟩ := rule?_eq_some hfound
  -- Two rules of one id are the same rule.
  rw [hfound, List.inj_on_of_nodup_map grammar.nodup_ids hmem h hid]

/-- A grammar passes the check of its ids exactly if no exported id is reserved. -/
theorem checkExportable_eq_ok_iff :
    grammar.checkExportable = .ok () ↔
      ∀ rule ∈ grammar.rules, isReservedId (Rule.exportId rule.id) = false := by
  unfold checkExportable
  cases hfind : grammar.rules.find? fun rule => isReservedId (Rule.exportId rule.id) with
  | none => simpa using hfind
  | some rule =>
    have hreserved := List.find?_some hfind
    have hmem := List.mem_of_find?_eq_some hfind
    simp only [reduceCtorEq, false_iff]
    intro h
    rw [h rule hmem] at hreserved
    cases hreserved

/-- Distinct ids of the table are no more than its rules. -/
theorem length_le_size {ids : List Text} (hnodup : ids.Nodup)
    (hids : ∀ id ∈ ids, grammar.contains id = true) : ids.length ≤ grammar.size := by
  have hsub : ids ⊆ grammar.rules.map Rule.id :=
    fun id hid => contains_iff_mem_ids.mp (hids id hid)
  have hlen := (List.subperm_of_subset hnodup hsub).length_le
  rwa [List.length_map] at hlen

end Grammar

end TaskGrammar
