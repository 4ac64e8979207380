import Mathlib.Data.Finset.Card
import Mathlib.Data.List.Induction
import Std.Data.HashMap.Lemmas
import TaskGrammar.Proofs.Grammar.Table

/-!
# `TaskGrammar.Proofs.Grammar.Additions`: what a sequence of additions makes of a table

A table starts empty and grows by calls. A call has an id and a list of replacements, and one rule
may be built up by calls that are far apart. `IsTableOf` says what there is after all of them
without following the table from call to call: the ids, each once and in the order in which they
first came up, and for each id all that was given for it.

A table that is used for lookups also has an index, from ids to positions, and the two are not
written together: a call with a known id writes to the rules alone, at the position that the index
has, and a call with a new id writes to both. `IndexedRules` is this table. Its invariant
(`Indexes`) is that the index has for each id the position at which a search through the rules
finds it, so whoever reads through the index sees what is in the list.

* `rules_ofRules`: the rules after some calls, told from the calls.
* `addRule_comm` / `ofRules_swap`: calls for two ids can be made in either order if one of the ids
  is there, and so such neighbours in a sequence can change places.
* `Indexes.add` / `indexes_ofCalls`: each call keeps the index in step with the rules, and so does
  any sequence of calls.
* `isTableOf_ofRules`: after any sequence of calls nothing is lost, and the table with the index
  has the same rules and gives the same answers.
-/

set_option autoImplicit false

namespace TaskGrammar

/-! ### The table with an index -/

/-- A table of rules with the position of each id. -/
structure IndexedRules where
  rules : List Rule
  index : Std.HashMap Text Nat

namespace IndexedRules

def empty : IndexedRules :=
  { rules := [], index := ∅ }

/-- Adds replacements where the index has the id. A new id is entered for a new rule at the
end. -/
def add (table : IndexedRules) (id : Text) (replacements : List Text) : IndexedRules :=
  match table.index[id]? with
  | some position =>
    { table with
      rules := table.rules.modify position fun rule =>
        { rule with replacements := rule.replacements ++ replacements } }
  | none =>
    { rules := table.rules ++ [{ id := id, replacements := replacements }]
      index := table.index.insert id table.rules.length }

/-- The table that some calls make, one after the other. -/
def ofCalls (calls : List Rule) : IndexedRules :=
  calls.foldl (fun table call => table.add call.id call.replacements) empty

/-- The rule of an id, by way of the index. -/
def rule? (table : IndexedRules) (id : Text) : Option Rule :=
  table.index[id]?.bind fun position => table.rules[position]?

/-- Whether the index has an id. -/
def contains (table : IndexedRules) (id : Text) : Bool :=
  table.index.contains id

/-- The rules are those of a grammar, and the index has each id at its position. -/
structure Indexes (table : IndexedRules) (grammar : Grammar) : Prop where
  rules : table.rules = grammar.rules
  index : ∀ id, table.index[id]? = (table.rules.map Rule.id).idxOf? id

end IndexedRules

/-- To look an id up among the ids is to search the rules for it. The index is compared with the
list of ids, and the lookups of a grammar search the rules. -/
theorem Rule.idxOf?_ids (rules : List Rule) (id : Text) :
    (rules.map Rule.id).idxOf? id = rules.findIdx? fun rule => rule.id == id := by
  rw [List.idxOf?, List.findIdx?_map]
  rfl

/-- An addition is made where a search finds the id, or at the end. In this form it can be
compared with what an index of positions says, while the definition goes through the rules one by
one. -/
theorem Rule.extend_eq_modify (rules : List Rule) (id : Text) (replacements : List Text) :
    extend rules id replacements
      = match (rules.map Rule.id).idxOf? id with
        | some position => rules.modify position fun rule =>
            { rule with replacements := rule.replacements ++ replacements }
        | none => rules ++ [{ id := id, replacements := replacements }] := by
  induction rules with
  | nil => rfl
  | cons rule rest ih =>
    rw [extend, List.map_cons, List.idxOf?_cons]
    by_cases hid : rule.id = id
    · rw [if_pos hid, if_pos (beq_iff_eq.mpr hid)]
      rfl
    · rw [if_neg hid, if_neg (by simpa using hid), ih]
      cases (rest.map Rule.id).idxOf? id with
      | some position => rfl
      | none => rfl

namespace IndexedRules

variable {table : IndexedRules} {grammar : Grammar}

/-- A table without rules has an index without entries. -/
theorem indexes_empty (name : Text) (tier : Tier) : empty.Indexes (Grammar.empty name tier) where
  rules := rfl
  index id := by simp [empty]

/-- A call keeps the index in step with the rules. There are two cases, as the index is only
touched by a new id. -/
theorem Indexes.add (h : table.Indexes grammar) (id : Text) (replacements : List Text) :
    (table.add id replacements).Indexes (grammar.addRule id replacements) := by
  have hrules : (table.add id replacements).rules = Rule.extend table.rules id replacements := by
    rw [Rule.extend_eq_modify, ← h.index, IndexedRules.add]
    cases table.index[id]? with
    | some position => rfl
    | none => rfl
  refine ⟨by rw [hrules, h.rules]; rfl, fun other => ?_⟩
  rw [hrules, Rule.ids_extend]
  cases hknown : table.index[id]? with
  | some position =>
    -- The ids are the same, and the index is not touched.
    have hmem : id ∈ table.rules.map Rule.id := by
      rw [← List.isSome_idxOf?, ← h.index, hknown]
      rfl
    rw [if_pos hmem, ← h.index, IndexedRules.add, hknown]
  | none =>
    -- The id comes behind all others, at the position that is entered for it.
    have hmem : id ∉ table.rules.map Rule.id := by
      rw [← List.idxOf?_eq_none_iff, ← h.index, hknown]
    rw [if_neg hmem, List.idxOf?, List.findIdx?_append, IndexedRules.add, hknown]
    show (table.index.insert id table.rules.length)[other]?
      = ((table.rules.map Rule.id).idxOf? other).or _
    rw [Std.HashMap.getElem?_insert, ← h.index]
    by_cases hother : id = other
    · subst hother
      simp [hknown]
    · simp [hother]

/-- So does any sequence of calls. -/
theorem indexes_ofCalls (name : Text) (tier : Tier) (calls : List Rule) :
    (ofCalls calls).Indexes (Grammar.ofRules name tier calls) := by
  -- Each call changes both, so the induction is over any table and grammar in step.
  suffices hrun : ∀ {table : IndexedRules} {grammar : Grammar}, table.Indexes grammar →
      (calls.foldl (fun table call => table.add call.id call.replacements) table).Indexes
        (calls.foldl (fun grammar call => grammar.addRule call.id call.replacements) grammar) from
    hrun (indexes_empty name tier)
  induction calls with
  | nil => exact id
  | cons call rest ih => exact fun h => ih (h.add call.id call.replacements)

/-- The index leads to the rule that a search finds. So nothing that is proved of a search has to
be proved of the index again. -/
theorem Indexes.rule?_eq (h : table.Indexes grammar) (id : Text) :
    table.rule? id = grammar.rule? id := by
  rw [rule?, h.index, Rule.idxOf?_ids, ← List.find?_eq_bind_findIdx?_getElem?, h.rules]
  rfl

/-- The index has the ids that a search finds. -/
theorem Indexes.contains_eq (h : table.Indexes grammar) (id : Text) :
    table.contains id = grammar.contains id := by
  rw [contains, Std.HashMap.contains_eq_isSome_getElem?, h.index, Rule.idxOf?_ids,
    List.findIdx?_isSome, h.rules]
  rfl

end IndexedRules

/-! ### The table after some calls -/

/-- All that some calls give for an id, in the order of the calls. -/
def Rule.givenTo (calls : List Rule) (id : Text) : List Text :=
  (calls.filter fun call => call.id = id).flatMap Rule.replacements

namespace Grammar

/-- What there is after some calls: every id that came up, once and in the order in which they
first came up, and under it what was given for it. -/
structure IsTableOf (calls : List Rule) (grammar : Grammar) : Prop where
  nodup : (grammar.rules.map Rule.id).Nodup
  order : grammar.rules.map Rule.id = (calls.map Rule.id).eraseDups
  contains : ∀ id, grammar.contains id = true ↔ ∃ call ∈ calls, call.id = id
  found : ∀ id, grammar.contains id = true → ∃ rule ∈ grammar.rules, rule.id = id ∧
    grammar.rule? id = some rule ∧ rule.replacements = Rule.givenTo calls id
  absent : ∀ id, grammar.contains id = false → grammar.rule? id = none
  size : grammar.size = (calls.map Rule.id).toFinset.card

/-- The last call is an addition to what the calls before it have made. With this equation the
calls are gone through from the end. -/
theorem ofRules_concat (name : Text) (tier : Tier) (calls : List Rule) (last : Rule) :
    ofRules name tier (calls ++ [last])
      = (ofRules name tier calls).addRule last.id last.replacements := by
  rw [ofRules, List.foldl_append]
  rfl

/-- There is a rule for each id of the calls, with what they give for it. The right side is made
from the calls alone, so that nothing of the order in which the table grew is left in it. -/
theorem rules_ofRules (name : Text) (tier : Tier) (calls : List Rule) :
    (ofRules name tier calls).rules
      = Rule.collect (calls.map Rule.id) (Rule.givenTo calls) := by
  induction calls using List.reverseRecOn with
  | nil => rfl
  | append_singleton calls last ih =>
    -- The last call is an addition to what the calls before it have made.
    have hgiven : Rule.givenTo (calls ++ [last]) = fun id =>
        Rule.givenTo calls id ++ if last.id = id then last.replacements else [] := by
      funext id
      rw [Rule.givenTo, List.filter_append, List.flatMap_append, List.filter_singleton]
      by_cases hid : last.id = id
      · simp [hid, Rule.givenTo]
      · simp [hid, Rule.givenTo]
    have hnew : last.id ∉ calls.map Rule.id → Rule.givenTo calls last.id = [] := by
      intro h
      have hnone : calls.filter (fun call => call.id = last.id) = [] :=
        List.filter_eq_nil_iff.mpr fun call hcall heq =>
          h (of_decide_eq_true heq ▸ List.mem_map_of_mem hcall)
      rw [Rule.givenTo, hnone, List.flatMap_nil]
    have hnodup := (ofRules name tier calls).nodup_ids
    rw [ih] at hnodup
    rw [ofRules_concat, hgiven, List.map_append, List.map_singleton,
      Rule.collect_concat hnodup hnew, ← ih]
    rfl

/-- Calls for two different ids can be made in either order if one of the ids is there. If both
are new, the order is that in which their rules will stand. -/
theorem addRule_comm {grammar : Grammar} {id other : Text} (hne : id ≠ other)
    (h : grammar.contains id = true ∨ grammar.contains other = true) (first second : List Text) :
    (grammar.addRule id first).addRule other second
      = (grammar.addRule other second).addRule id first := by
  refine eq_of_rules_eq rfl rfl ?_
  rcases h with hid | hother
  · exact Rule.extend_comm hne (contains_iff_mem_ids.mp hid) first second
  · exact (Rule.extend_comm hne.symm (contains_iff_mem_ids.mp hother) second first).symm

/-- The ids of a table are those of the calls, in the order in which they came up first. -/
theorem ids_ofRules (name : Text) (tier : Tier) (calls : List Rule) :
    (ofRules name tier calls).rules.map Rule.id = (calls.map Rule.id).eraseDups := by
  rw [rules_ofRules, Rule.ids_collect]

/-- An id is in a table if some call gave it, be it without replacements. -/
theorem contains_ofRules_iff {name : Text} {tier : Tier} {calls : List Rule} {id : Text} :
    (ofRules name tier calls).contains id = true ↔ id ∈ calls.map Rule.id := by
  rw [contains_iff_mem_ids, ids_ofRules, List.mem_eraseDups]

/-- The rule that is found for an id has all that the calls give for the id, in the order of the
calls. -/
theorem replacements_of_mem_ofRules {name : Text} {tier : Tier} {calls : List Rule} {rule : Rule}
    (h : rule ∈ (ofRules name tier calls).rules) :
    rule.replacements = Rule.givenTo calls rule.id := by
  rw [rules_ofRules, Rule.collect] at h
  obtain ⟨id, -, rfl⟩ := List.mem_map.mp h
  rfl

/-- There are as many rules as different ids. A second call for an id makes no rule of its own. -/
theorem size_ofRules (name : Text) (tier : Tier) (calls : List Rule) :
    (ofRules name tier calls).size = (calls.map Rule.id).toFinset.card := by
  have hset : ((ofRules name tier calls).rules.map Rule.id).toFinset
      = (calls.map Rule.id).toFinset := by
    ext id
    rw [List.mem_toFinset, List.mem_toFinset, ids_ofRules, List.mem_eraseDups]
  rw [← hset, List.toFinset_card_of_nodup (ofRules name tier calls).nodup_ids, List.length_map]
  rfl

/-- Neighbouring calls for different ids can change places if one of the ids was there before. The
order of the rules is that in which their ids came up first, and this is the same then. -/
theorem ofRules_swap (name : Text) (tier : Tier) {before after : List Rule} {first second : Rule}
    (hne : first.id ≠ second.id)
    (h : first.id ∈ before.map Rule.id ∨ second.id ∈ before.map Rule.id) :
    ofRules name tier (before ++ first :: second :: after)
      = ofRules name tier (before ++ second :: first :: after) := by
  -- The two calls come upon the same table, and the same calls follow.
  have hthere : (ofRules name tier before).contains first.id = true ∨
      (ofRules name tier before).contains second.id = true :=
    h.imp contains_ofRules_iff.mpr contains_ofRules_iff.mpr
  unfold ofRules at hthere ⊢
  rw [List.foldl_append, List.foldl_append]
  simp only [List.foldl_cons]
  rw [addRule_comm hne hthere]

/-- After any sequence of calls the table has every id and everything that was given, and it does
so with an index that is kept beside the rules, too. Neighbouring calls for different ids can
change places if one of the ids was there before them. -/
theorem isTableOf_ofRules (name : Text) (tier : Tier) (calls : List Rule) :
    (ofRules name tier calls).IsTableOf calls ∧
      (IndexedRules.ofCalls calls).Indexes (ofRules name tier calls) ∧
      (∀ id, (IndexedRules.ofCalls calls).rule? id = (ofRules name tier calls).rule? id ∧
        (IndexedRules.ofCalls calls).contains id = (ofRules name tier calls).contains id) ∧
      ∀ before first second after, calls = before ++ first :: second :: after →
        first.id ≠ second.id →
        first.id ∈ before.map Rule.id ∨ second.id ∈ before.map Rule.id →
        ofRules name tier calls = ofRules name tier (before ++ second :: first :: after) := by
  have hindexes := IndexedRules.indexes_ofCalls name tier calls
  refine ⟨?_, hindexes, fun id => ⟨hindexes.rule?_eq id, hindexes.contains_eq id⟩, ?_⟩
  · constructor
    case nodup => exact (ofRules name tier calls).nodup_ids
    case order => exact ids_ofRules name tier calls
    case contains =>
      intro id
      rw [contains_ofRules_iff, List.mem_map]
    case found =>
      intro id hid
      obtain ⟨rule, hrule⟩ := contains_iff_rule?.mp hid
      obtain ⟨hmem, rfl⟩ := rule?_eq_some hrule
      exact ⟨rule, hmem, rfl, hrule, replacements_of_mem_ofRules hmem⟩
    case absent =>
      intro id hid
      cases hrule : (ofRules name tier calls).rule? id with
      | none => rfl
      | some rule =>
        rw [contains_of_rule? hrule] at hid
        cases hid
    case size => exact size_ofRules name tier calls
  · rintro before first second after rfl hne hthere
    exact ofRules_swap name tier hne hthere

/-- Two rules whose lines take turns: the last two lines can change places. -/
theorem isTableOf_ofRules_turns :
    ofRules "Turns".toList .unknown
        [⟨rootId, ["go to $place".toList]⟩, ⟨"$place".toList, ["{room}".toList]⟩,
          ⟨rootId, ["stop".toList]⟩, ⟨"$place".toList, ["{location}".toList]⟩]
      = ofRules "Turns".toList .unknown
        [⟨rootId, ["go to $place".toList]⟩, ⟨"$place".toList, ["{room}".toList]⟩,
          ⟨"$place".toList, ["{location}".toList]⟩, ⟨rootId, ["stop".toList]⟩] :=
  (isTableOf_ofRules _ _ _).2.2.2 [_, _] ⟨rootId, ["stop".toList]⟩
    ⟨"$place".toList, ["{location}".toList]⟩ [] rfl (by decide) (.inl (by decide))

end Grammar

end TaskGrammar
