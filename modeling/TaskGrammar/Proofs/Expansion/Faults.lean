import TaskGrammar.Proofs.Expansion.Derivation
import TaskGrammar.Proofs.Template.Keys
import TaskGrammar.Random.Script

/-!
# `TaskGrammar.Proofs.Expansion.Faults`: what the fault of an expansion certifies

A fault carries evidence: the way into a cycle, the rule that is too deep, the key that nothing
fits. The expansion reads it off the path that it keeps, deep inside of random choices. Here the
evidence is checked against the grammar and the datasets alone.

* `Grammar.MeetsItself`, `Grammar.LeadsThrough`, `Wildcard.Unserved`: what the three kinds of
  evidence have to be.
* `Explains.certified`: what an expansion knows when it fails is such evidence.
* `taskFrom_error_certified`: so every fault of a task is a true statement, and there is no
  other kind of fault.
-/

set_option autoImplicit false

namespace TaskGrammar

/-! ### Evidence -/

namespace Grammar

variable {grammar : Grammar} {start id : Text} {path : List Text}

/-- Ids from the start on, each of them referred to by the one before it. -/
structure IsWay (grammar : Grammar) (start : Text) (way : List Text) : Prop where
  starts : way.head? = some start
  linked : way.IsChain grammar.Refers

/-- A way that comes to a rule for the second time with its last entry, and not before. -/
structure MeetsItself (grammar : Grammar) (start : Text) (way : List Text) : Prop
    extends grammar.IsWay start way where
  distinct : way.dropLast.Nodup
  closes : ∃ last, way.getLast? = some last ∧ last ∈ way.dropLast

/-- A way through so many distinct rules to yet another rule. -/
structure LeadsThrough (grammar : Grammar) (start : Text) (rules : List Text) (id : Text) : Prop
    extends grammar.IsWay start (rules ++ [id]) where
  distinct : rules.Nodup
  fresh : id ∉ rules
  defined : ∀ other ∈ rules ++ [id], grammar.contains other = true

namespace Trail

/-- A trail read outwards is a way, with the rule that is looked at as its last entry. The path is
kept with the innermost rule first, so it is turned round. -/
theorem isWay (h : grammar.Trail start path id) :
    grammar.IsWay start (path.reverse ++ [id]) := by
  have hreverse : path.reverse ++ [id] = (id :: path).reverse := List.reverse_cons.symm
  constructor
  · rw [hreverse, List.head?_reverse]
    induction h with
    | here => rfl
    | step _ _ _ ih => exact (List.getLast?_cons_cons ..).trans (ih List.reverse_cons.symm)
  · rw [hreverse, List.isChain_reverse]
    exact h.linked

/-- A trail that comes to a rule it has been in before is a way into a cycle. The trail itself
repeats no rule, so the last one is the only one that comes twice. -/
theorem meetsItself (h : grammar.Trail start path id) (hmem : id ∈ path) :
    grammar.MeetsItself start (id :: path).reverse := by
  have hdrop : (path.reverse ++ [id]).dropLast = path.reverse := List.dropLast_concat
  rw [List.reverse_cons]
  refine { h.isWay with distinct := ?_, closes := ⟨id, List.getLast?_concat, ?_⟩ }
  · rw [hdrop, List.nodup_reverse]
    exact h.nodup
  · rw [hdrop, List.mem_reverse]
    exact hmem

/-- A trail that comes to a new rule leads to it through rules that are all defined, and all
different. -/
theorem leadsThrough (h : grammar.Trail start path id) (hdefined : grammar.contains id = true)
    (hfresh : id ∉ path) : grammar.LeadsThrough start path.reverse id := by
  refine { h.isWay with
    distinct := List.nodup_reverse.mpr h.nodup
    fresh := fun hmem => hfresh (List.mem_reverse.mp hmem)
    defined := fun other hother => ?_ }
  rcases List.mem_append.mp hother with hmem | hlast
  · exact h.contains_of_mem (List.mem_reverse.mp hmem)
  · rw [List.mem_singleton.mp hlast]
    exact hdefined

end Trail

end Grammar

/-- Nothing fits a wildcard: its key is none of those with a meaning, or it asks for entities and
none of the dataset passes the filter. -/
def Wildcard.Unserved (entities : Entities) (wildcard : Wildcard) : Prop :=
  (∀ kind, (wildcard.key, kind) ∉ Wildcard.keywords) ∨
    ∃ kind, (wildcard.key, kind) ∈ Wildcard.keywords ∧ kind ≠ .void ∧
      entities.candidates kind = []

/-- A wildcard for which nothing is offered is unserved. If its key is none of those with a
meaning this holds whatever the datasets are, and else its candidates are missing. -/
theorem Wildcard.unserved_of_forall_not_offers {entities : Entities} {wildcard : Wildcard}
    (hvoid : wildcard.kind ≠ .void) (hnone : ∀ token, ¬ entities.Offers wildcard.kind token) :
    wildcard.Unserved entities := by
  have hempty : entities.candidates wildcard.kind = [] := by
    refine List.eq_nil_iff_forall_not_mem.mpr fun token htoken => ?_
    exact hnone token (Entities.mem_candidates.mp htoken)
  by_cases hother : ∃ key, wildcard.kind = .other key
  · obtain ⟨key, hkey⟩ := hother
    obtain ⟨hlookup, -⟩ := Kind.ofKey_eq_other_iff.mp hkey
    refine .inl fun kind hmem => ?_
    have hne := List.lookup_eq_none_iff.mp hlookup _ hmem
    simp at hne
  · have hmem := Kind.mem_keywords_of_ofKey (rfl : Kind.ofKey wildcard.key = wildcard.kind)
      fun key hkey => hother ⟨key, hkey⟩
    exact .inr ⟨wildcard.kind, hmem, hvoid, hempty⟩

/-- A key that nothing fits is shown in braces, as it stands in the template between braces. -/
theorem Fault.message_noCandidates (key : Text) :
    Fault.message (.noCandidates key)
      = "No candidates for wildcard ".toList ++ ('{' :: (key ++ ['}'])) := by
  have hopen : "No candidates for wildcard \x7b".toList
      = "No candidates for wildcard ".toList ++ ['{'] := by decide
  have hclose : "\x7d".toList = ['}'] := by decide
  calc Fault.message (.noCandidates key)
      = "No candidates for wildcard \x7b".toList ++ key ++ "\x7d".toList := rfl
    _ = "No candidates for wildcard ".toList ++ ('{' :: (key ++ ['}'])) := by
        rw [hopen, hclose, List.append_assoc, List.append_assoc, List.singleton_append]

/-! ### The faults of a task -/

namespace Expansion

variable {expansion : Expansion} {start : Text}

/-- What a fault has to say about the grammar, the datasets and the limit to be true. Of the kinds
of faults an expansion has three. -/
def Certified (expansion : Expansion) (start : Text) : Fault → Prop
  | .cyclicGrammar way => expansion.grammar.MeetsItself start way
  | .recursionLimit id limit =>
    limit = expansion.limit ∧
      ∃ rules, rules.length = limit ∧ expansion.grammar.LeadsThrough start rules id
  | .noCandidates key =>
    ∃ id rule template wildcard, expansion.grammar.Reaches start id ∧
      expansion.grammar.rule? id = some rule ∧ template ∈ rule.replacements ∧
      Segment.wildcard wildcard ∈ Segment.segments template ∧ wildcard.key = key ∧
      wildcard.Unserved expansion.entities ∧
      -- The wording shows the key as the wildcard has it, in braces.
      Fault.message (.noCandidates key)
        = "No candidates for wildcard ".toList ++ ('{' :: (wildcard.key ++ ['}']))
  | _ => False

/-- What an expansion knows of its way when it fails is evidence. There is one case for each
fault: a trail that meets itself, a trail as long as the limit, and a wildcard on a rule that is
reached. -/
theorem Explains.certified {fault : Fault} (h : expansion.Explains start fault) :
    expansion.Certified start fault := by
  cases h with
  | cyclicGrammar trail repeated => exact trail.meetsItself repeated
  | @recursionLimit path id trail defined fresh full =>
    refine ⟨rfl, path.reverse, ?_, trail.leadsThrough defined fresh⟩
    rw [List.length_reverse, full]
  | @noCandidates id rule template wildcard reaches found chosen scanned notVoid none =>
    exact ⟨id, rule, template, wildcard, reaches, found, chosen, scanned, rfl,
      Wildcard.unserved_of_forall_not_offers notVoid none, Fault.message_noCandidates _⟩

/-- Where draws end, no fault is one of the draws. -/
theorem explains_of_drawsEnd {σ : Type} [RandomSource σ] {source : σ} {fault : Fault}
    (hends : Random.DrawsEnd expansion.DrawsBelow source)
    (hfault : ((expansion.taskFrom start : Draw σ Task).outcome source).1 = .error fault) :
    expansion.Explains start fault := by
  obtain ⟨inv, hdraws, hsource⟩ := hends
  have h := (taskFrom_satisfies expansion hdraws start).fault_of_error hsource hfault
  exact h.resolve_left id

/-- Whatever the random source, a fault of a task from any start is certified: a cycle is a way
from the start that meets itself, a rule too deep is led to through as many rules as the limit
allows, and a key without candidates is that of a wildcard within reach of the start, unknown or
with nothing left behind its filter. There is no other fault where draws end. -/
theorem taskFrom_error_certified {σ : Type} [RandomSource σ] (expansion : Expansion) (start : Text)
    (source : σ) {fault : Fault}
    (hfault : ((expansion.taskFrom start : Draw σ Task).outcome source).1 = .error fault) :
    expansion.Certified start fault ∨
      fault = .endlessDraw ∧ ¬ Random.DrawsEnd expansion.DrawsBelow source := by
  by_cases hends : Random.DrawsEnd expansion.DrawsBelow source
  · exact .inl (explains_of_drawsEnd hends hfault).certified
  · have h := (taskFrom_satisfies expansion Random.respects_any start).fault_of_error trivial hfault
    rcases h with hendless | hexplains
    · exact .inr ⟨hendless, hends⟩
    · exact .inl hexplains.certified

/-- A rule that leads into a ring of two others, and one that asks for somebody. -/
def roundabout : Grammar :=
  Grammar.ofRules [] .unknown
    [{ id := "$Main".toList, replacements := ["go $turn".toList] },
      { id := "$turn".toList, replacements := ["left $back".toList] },
      { id := "$back".toList, replacements := ["$turn".toList] },
      { id := "$ask".toList, replacements := ["tell {name}".toList] }]

section Roundabout

variable {σ : Type} [RandomSource σ] {entities : Entities} {limit : Nat} {fault : Fault}

/-- What goes wrong behind the second rule goes wrong with the task. Nothing is drawn on the way
there, so this is so for every source. -/
theorem taskFrom_roundabout_of_back (hlimit : 2 ≤ limit)
    (hback : (expandRule ⟨roundabout, entities, limit⟩ ["$turn".toList, "$Main".toList]
      "$back".toList : Draw σ (List Token)) = throw fault) :
    ((Expansion.mk roundabout entities limit).taskFrom "$Main".toList : Draw σ Task)
      = throw fault := by
  have hgo : Segment.segments "go $turn".toList
      = [.literal "go ".toList, .reference "$turn".toList] := by decide +kernel
  have hleft : Segment.segments "left $back".toList
      = [.literal "left ".toList, .reference "$back".toList] := by decide +kernel
  have hturn : (expandRule ⟨roundabout, entities, limit⟩ ["$Main".toList] "$turn".toList :
      Draw σ (List Token)) = throw fault :=
    calc (expandRule ⟨roundabout, entities, limit⟩ ["$Main".toList] "$turn".toList :
          Draw σ (List Token))
        = expandSegments ⟨roundabout, entities, limit⟩ ["$turn".toList, "$Main".toList]
            (Segment.segments "left $back".toList) := expandRule_of_only rfl (by decide) hlimit
      _ = throw fault := by
          rw [hleft, expandSegments, expandSegments, hback]
          rfl
  have hmain : (expandRule ⟨roundabout, entities, limit⟩ [] "$Main".toList :
      Draw σ (List Token)) = throw fault :=
    calc (expandRule ⟨roundabout, entities, limit⟩ [] "$Main".toList : Draw σ (List Token))
        = expandSegments ⟨roundabout, entities, limit⟩ ["$Main".toList]
            (Segment.segments "go $turn".toList) :=
          expandRule_of_only rfl (by decide) (Nat.lt_of_lt_of_le Nat.zero_lt_two hlimit)
      _ = throw fault := by
          rw [hgo, expandSegments, expandSegments, hturn]
          rfl
  rw [taskFrom, hmain]
  rfl

/-- With three rules allowed the ring is met. With two, the limit comes first. -/
theorem taskFrom_roundabout_ring (hlimit : 3 ≤ limit) :
    ((Expansion.mk roundabout entities limit).taskFrom "$Main".toList : Draw σ Task)
      = throw (.cyclicGrammar
          ["$Main".toList, "$turn".toList, "$back".toList, "$turn".toList]) := by
  have hturn : Segment.segments "$turn".toList = [.reference "$turn".toList] := by decide +kernel
  have hrule : roundabout.rule? "$turn".toList
      = some { id := "$turn".toList, replacements := ["left $back".toList] } := rfl
  refine taskFrom_roundabout_of_back (Nat.le_of_succ_le hlimit) ?_
  calc (expandRule ⟨roundabout, entities, limit⟩ ["$turn".toList, "$Main".toList] "$back".toList :
        Draw σ (List Token))
      = expandSegments ⟨roundabout, entities, limit⟩
          ["$back".toList, "$turn".toList, "$Main".toList] (Segment.segments "$turn".toList) :=
        expandRule_of_only rfl (by decide) hlimit
    _ = throw (.cyclicGrammar
          ["$Main".toList, "$turn".toList, "$back".toList, "$turn".toList]) := by
        rw [hturn, expandSegments, expandRule_of_mem hrule (by decide)]
        rfl

/-- With two rules allowed the way back is too deep. -/
theorem taskFrom_roundabout_deep :
    ((Expansion.mk roundabout entities 2).taskFrom "$Main".toList : Draw σ Task)
      = throw (.recursionLimit "$back".toList 2) := by
  have hrule : roundabout.rule? "$back".toList
      = some { id := "$back".toList, replacements := ["$turn".toList] } := rfl
  exact taskFrom_roundabout_of_back (Nat.le_refl 2)
    (expandRule_of_le hrule (by decide) (Nat.le_refl 2))

/-- Without names there is nobody to tell. The rule is not on the ring, so that only the wildcard
can fail. -/
theorem taskFrom_roundabout_nobody (hlimit : 0 < limit) :
    ((Expansion.mk roundabout .empty limit).taskFrom "$ask".toList : Draw σ Task)
      = throw (.noCandidates "name".toList) := by
  have htell : Segment.segments "tell {name}".toList
      = [.literal "tell ".toList, .wildcard ⟨"name".toList, [], true⟩] := by decide +kernel
  have hname : (expandWildcard .empty ⟨"name".toList, [], true⟩ : Draw σ (List Token))
      = throw (.noCandidates "name".toList) := rfl
  have hask : (expandRule ⟨roundabout, .empty, limit⟩ [] "$ask".toList : Draw σ (List Token))
      = throw (.noCandidates "name".toList) :=
    calc (expandRule ⟨roundabout, .empty, limit⟩ [] "$ask".toList : Draw σ (List Token))
        = expandSegments ⟨roundabout, .empty, limit⟩ ["$ask".toList]
            (Segment.segments "tell {name}".toList) := expandRule_of_only rfl (by decide) hlimit
      _ = throw (.noCandidates "name".toList) := by
          rw [htell, expandSegments, expandSegments, hname]
          rfl
  rw [taskFrom, hask]
  rfl

end Roundabout

/-- The three faults of the roundabout are evidence of a ring, of a way that is too deep, and of a
wildcard for names that are not there. -/
theorem taskFrom_error_certified_roundabout :
    ((((Expansion.mk roundabout .empty 5).taskFrom "$Main".toList : Draw Script Task).outcome
        (Script.ofWords [0])).1
        = .error (.cyclicGrammar ["$Main".toList, "$turn".toList, "$back".toList, "$turn".toList]) ∧
      (Expansion.mk roundabout .empty 5).Certified "$Main".toList
        (.cyclicGrammar ["$Main".toList, "$turn".toList, "$back".toList, "$turn".toList])) ∧
    ((((Expansion.mk roundabout .empty 2).taskFrom "$Main".toList : Draw Script Task).outcome
        (Script.ofWords [0])).1 = .error (.recursionLimit "$back".toList 2) ∧
      (Expansion.mk roundabout .empty 2).Certified "$Main".toList
        (.recursionLimit "$back".toList 2)) ∧
    (((Expansion.mk roundabout .empty 5).taskFrom "$ask".toList : Draw Script Task).outcome
        (Script.ofWords [0])).1 = .error (.noCandidates "name".toList) ∧
      (Expansion.mk roundabout .empty 5).Certified "$ask".toList (.noCandidates "name".toList) := by
  have hcycle : (((Expansion.mk roundabout .empty 5).taskFrom "$Main".toList :
      Draw Script Task).outcome (Script.ofWords [0])).1
      = .error (.cyclicGrammar
          ["$Main".toList, "$turn".toList, "$back".toList, "$turn".toList]) := by
    rw [taskFrom_roundabout_ring (by decide), Draw.outcome_throw]
  have hlimit : (((Expansion.mk roundabout .empty 2).taskFrom "$Main".toList :
      Draw Script Task).outcome (Script.ofWords [0])).1
      = .error (.recursionLimit "$back".toList 2) := by
    rw [taskFrom_roundabout_deep, Draw.outcome_throw]
  have hnobody : (((Expansion.mk roundabout .empty 5).taskFrom "$ask".toList :
      Draw Script Task).outcome (Script.ofWords [0])).1 = .error (.noCandidates "name".toList) := by
    rw [taskFrom_roundabout_nobody (by decide), Draw.outcome_throw]
  -- None of the three is the fault of a draw.
  exact ⟨⟨hcycle, (taskFrom_error_certified _ _ _ hcycle).resolve_right (nomatch ·.1)⟩,
    ⟨hlimit, (taskFrom_error_certified _ _ _ hlimit).resolve_right (nomatch ·.1)⟩,
    hnobody, (taskFrom_error_certified _ _ _ hnobody).resolve_right (nomatch ·.1)⟩

end Expansion

end TaskGrammar
