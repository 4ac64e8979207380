import TaskGrammar.Proofs.Expansion.Success
import TaskGrammar.Proofs.Template.Keys
import TaskGrammar.Proofs.Template.Remark

/-!
# `TaskGrammar.Proofs.Expansion.Tree`: the derivation tree of a task

An expansion throws its choices away and keeps the tokens. This file gives the choices back:
for each task there is a tree whose nodes are the rules that were entered and whose leaves are
the tokens that literals and wildcards became. What may stand below a node is said without the
expansion, by the rules of the grammar (`Derives`) and by the keys of wildcards
(`Entities.Fits`, `Entities.Realizes`).

* `realizes_of_adds`: what an expansion adds for a wildcard is what the key allows.
* `expandRule_satisfies_grows`: a rule that is entered inside a path has a tree that goes on
  from this path without meeting a rule twice and without exceeding the limit.
* `taskFrom_has_tree`: the tokens of a task are the leaves of such a tree.
-/

set_option autoImplicit false

namespace TaskGrammar

/-! ### Trees -/

/-- The choices of an expansion. A leaf has the tokens that a segment became by itself, a node
is a rule with what the segments of one of its templates became. -/
inductive DerivationTree
  | leaf (tokens : List Token)
  | node (id : Text) (parts : List DerivationTree)

namespace DerivationTree

mutual

/-- The tokens of a tree, from left to right. -/
def yield : DerivationTree → List Token
  | leaf tokens => tokens
  | node _ parts => yieldAll parts

/-- The tokens of some trees, one tree after the other. -/
def yieldAll : List DerivationTree → List Token
  | [] => []
  | tree :: rest => tree.yield ++ yieldAll rest

end

mutual

/-- The way to each node of a tree: the ids of the rules from the outermost one to the node
itself. -/
def ways : DerivationTree → List (List Text)
  | leaf _ => []
  | node id parts => [id] :: (waysAll parts).map (id :: ·)

/-- The ways to the nodes of some trees. -/
def waysAll : List DerivationTree → List (List Text)
  | [] => []
  | tree :: rest => tree.ways ++ waysAll rest

end

/-- The ways of trees are those of each of them. So a way that is to be followed leads into one
tree. -/
theorem waysAll_eq_flatMap (trees : List DerivationTree) : waysAll trees = trees.flatMap ways := by
  induction trees with
  | nil => rfl
  | cons tree rest ih => rw [waysAll, ih, List.flatMap_cons]

/-- Every way of the tree goes on from the path, innermost rule first, without repeating an id,
and is no longer than the limit together with it. -/
def NestsIn (limit : Nat) (path : List Text) (tree : DerivationTree) : Prop :=
  ∀ way ∈ tree.ways, (way.reverse ++ path).Nodup ∧ (way.reverse ++ path).length ≤ limit

/-- A leaf has no rule and so nothing that could be too deep. -/
theorem nestsIn_leaf (limit : Nat) (path : List Text) (tokens : List Token) :
    (leaf tokens).NestsIn limit path := by
  intro way hway
  simp [ways] at hway

/-- A rule that is not on the path, with a place left for it, and trees that go on from there.
Every way of the tree is then one of distinct rules within the limit. -/
theorem nestsIn_node {limit : Nat} {path : List Text} {id : Text} {parts : List DerivationTree}
    (hpath : path.Nodup) (hid : id ∉ path) (hlimit : path.length < limit)
    (hparts : ∀ part ∈ parts, part.NestsIn limit (id :: path)) :
    (node id parts).NestsIn limit path := by
  intro way hway
  rw [ways, waysAll_eq_flatMap] at hway
  rcases List.mem_cons.mp hway with rfl | hinner
  · exact ⟨List.nodup_cons.mpr ⟨hid, hpath⟩, hlimit⟩
  · obtain ⟨inner, hmem, rfl⟩ := List.mem_map.mp hinner
    obtain ⟨part, hpart, hmem⟩ := List.mem_flatMap.mp hmem
    -- Behind the node the way is one of a part, read from the longer path.
    have h := hparts part hpart inner hmem
    rwa [List.reverse_cons, List.append_assoc, List.singleton_append]

end DerivationTree

/-! ### What a wildcard may become -/

/-- The entities that a key stands for, each as a token of its name and its metadata. -/
inductive Entities.Fits (entities : Entities) : Text → Token → Prop
  | category {category : Category} (mem : category ∈ entities.categories.items) :
      Fits entities "category".toList (Entity.token category)
  | gesture {gesture : Gesture} (mem : gesture ∈ entities.gestures.items) :
      Fits entities "gesture".toList (Entity.token gesture)
  | question {question : Question} (mem : question ∈ entities.questions.items) :
      Fits entities "question".toList (Entity.token question)
  | name {person : PersonName} (mem : person ∈ entities.names.items) :
      Fits entities "name".toList (Entity.token person)
  | female {person : PersonName} (mem : person ∈ entities.names.items)
      (gender : person.gender = .female) : Fits entities "female".toList (Entity.token person)
  | male {person : PersonName} (mem : person ∈ entities.names.items)
      (gender : person.gender = .male) : Fits entities "male".toList (Entity.token person)
  | location {location : Location} (mem : location ∈ entities.locations.items) :
      Fits entities "location".toList (Entity.token location)
  | room {location : Location} (mem : location ∈ entities.locations.items)
      (room : location.room = none) : Fits entities "room".toList (Entity.token location)
  | beacon {location : Location} (mem : location ∈ entities.locations.items)
      (beacon : location.isBeacon = true) :
      Fits entities "beacon".toList (Entity.token location)
  | placement {location : Location} (mem : location ∈ entities.locations.items)
      (placement : location.isPlacement = true) :
      Fits entities "placement".toList (Entity.token location)
  | object {object : Object} (mem : object ∈ entities.objects.items) :
      Fits entities "object".toList (Entity.token object)
  | known {object : Object} (mem : object ∈ entities.objects.items)
      (known : object.familiarity = .known) : Fits entities "kobject".toList (Entity.token object)
  | alike {object : Object} (mem : object ∈ entities.objects.items)
      (alike : object.familiarity = .alike) : Fits entities "aobject".toList (Entity.token object)

/-- The tokens that a wildcard may become. The one for nothing becomes none, or a token without
text for its remark. Any other becomes an entity of its key, the remark behind its metadata. -/
inductive Entities.Realizes (entities : Entities) (wildcard : Wildcard) : List Token → Prop
  | nothing (key : wildcard.key = "void".toList) (silent : ∀ remark, ¬ wildcard.Carries remark) :
      Realizes entities wildcard []
  | remark {remark : Text} (key : wildcard.key = "void".toList)
      (carries : wildcard.Carries remark) :
      Realizes entities wildcard [{ text := [], metadata := [remark] }]
  | plain {token : Token} (fits : entities.Fits wildcard.key token)
      (silent : ∀ remark, ¬ wildcard.Carries remark) : Realizes entities wildcard [token]
  | annotated {token : Token} {remark : Text} (fits : entities.Fits wildcard.key token)
      (carries : wildcard.Carries remark) :
      Realizes entities wildcard [{ token with metadata := token.metadata ++ [remark] }]

/-- What is offered for the kind of a key fits the key. The kind is what the program goes by, and
the key is what an author writes. -/
theorem Entities.fits_of_offers {entities : Entities} {key : Text} {token : Token}
    (h : entities.Offers (.ofKey key) token) : entities.Fits key token := by
  have hkind : ∀ other, Wildcard.Kind.ofKey key ≠ .other other := by
    intro other hother
    rw [hother] at h
    exact h
  have hmem := Wildcard.Kind.mem_keywords_of_ofKey rfl hkind
  generalize Wildcard.Kind.ofKey key = kind at h hmem
  -- One case for each keyword; the kind says which dataset and filter stand behind it.
  simp only [Wildcard.keywords, List.mem_cons, Prod.mk.injEq, List.not_mem_nil, or_false] at hmem
  rcases hmem with ⟨rfl, rfl⟩ | ⟨rfl, rfl⟩ | ⟨rfl, rfl⟩ | ⟨rfl, rfl⟩ | ⟨rfl, rfl⟩ | ⟨rfl, rfl⟩ |
    ⟨rfl, rfl⟩ | ⟨rfl, rfl⟩ | ⟨rfl, rfl⟩ | ⟨rfl, rfl⟩ | ⟨rfl, rfl⟩ | ⟨rfl, rfl⟩ | ⟨rfl, rfl⟩ |
    ⟨rfl, rfl⟩
  · obtain ⟨category, hmem, rfl⟩ := h
    exact .category hmem
  · obtain ⟨gesture, hmem, rfl⟩ := h
    exact .gesture hmem
  · obtain ⟨question, hmem, rfl⟩ := h
    exact .question hmem
  · obtain ⟨person, hmem, -, rfl⟩ := h
    exact .name hmem
  · obtain ⟨person, hmem, hadmits, rfl⟩ := h
    exact .female hmem (by simpa [NameFilter.admits] using hadmits)
  · obtain ⟨person, hmem, hadmits, rfl⟩ := h
    exact .male hmem (by simpa [NameFilter.admits] using hadmits)
  · obtain ⟨location, hmem, -, rfl⟩ := h
    exact .location hmem
  · obtain ⟨location, hmem, hadmits, rfl⟩ := h
    exact .room hmem (by simpa [LocationFilter.admits, Location.isRoom] using hadmits)
  · obtain ⟨location, hmem, hadmits, rfl⟩ := h
    exact .beacon hmem hadmits
  · obtain ⟨location, hmem, hadmits, rfl⟩ := h
    exact .placement hmem hadmits
  · obtain ⟨object, hmem, -, rfl⟩ := h
    exact .object hmem
  · obtain ⟨object, hmem, hadmits, rfl⟩ := h
    exact .known hmem (by simpa [ObjectFilter.admits] using hadmits)
  · obtain ⟨object, hmem, hadmits, rfl⟩ := h
    exact .alike hmem (by simpa [ObjectFilter.admits] using hadmits)
  · exact h.elim

/-- What an expansion may add for a wildcard is what its key and its remark allow. There are four
cases: for the key that stands for nothing and for the others, without a remark and with one. -/
theorem Entities.realizes_of_adds {entities : Entities} {wildcard : Wildcard}
    {tokens : List Token} (h : entities.Adds wildcard tokens) :
    entities.Realizes wildcard tokens := by
  cases hremark : wildcard.metadata with
  | none =>
    have hsilent := Wildcard.metadata_eq_none_iff.mp hremark
    cases h with
    | remark void =>
      rw [hremark]
      exact .nothing (Wildcard.Kind.ofKey_eq_void_iff.mp void) hsilent
    | entity offered =>
      rw [hremark]
      exact .plain (fits_of_offers offered) hsilent
  | some remark =>
    have hcarries := Wildcard.metadata_eq_some_iff.mp hremark
    cases h with
    | remark void =>
      rw [hremark]
      exact .remark (Wildcard.Kind.ofKey_eq_void_iff.mp void) hcarries
    | entity offered =>
      rw [hremark]
      exact .annotated (fits_of_offers offered) hcarries

/-! ### What a segment may become -/

/-- The trees of a segment. A literal is a leaf with one token, a reference to no rule a leaf
without any. A reference to a rule is a node: with nothing below it if the rule has no
replacements, and otherwise with a tree for each segment of one of them. -/
inductive Derives (grammar : Grammar) (entities : Entities) : Segment → DerivationTree → Prop
  | literal (text : Text) :
      Derives grammar entities (.literal text) (.leaf [{ text := text, metadata := [] }])
  | wildcard {wildcard : Wildcard} {tokens : List Token}
      (realizes : entities.Realizes wildcard tokens) :
      Derives grammar entities (.wildcard wildcard) (.leaf tokens)
  | undefined {id : Text} (undefined : grammar.rule? id = none) :
      Derives grammar entities (.reference id) (.leaf [])
  | empty {id : Text} {rule : Rule} (found : grammar.rule? id = some rule)
      (empty : rule.replacements = []) : Derives grammar entities (.reference id) (.node id [])
  | rule {id : Text} {rule : Rule} {template : Text} {parts : List DerivationTree}
      (found : grammar.rule? id = some rule) (chosen : template ∈ rule.replacements)
      (inner : List.Forall₂ (Derives grammar entities) (Segment.segments template) parts) :
      Derives grammar entities (.reference id) (.node id parts)

/-- The tokens of a segment inside a path: the leaves of one of its trees, which goes on from
the path within the limit. -/
def Expansion.Grows (expansion : Expansion) (path : List Text) (segment : Segment)
    (tokens : List Token) : Prop :=
  ∃ tree, Derives expansion.grammar expansion.entities segment tree ∧ tree.yield = tokens ∧
    tree.NestsIn expansion.limit path

/-- The trees of segments one after the other have the tokens one after the other. The ways are
those of the single trees, so nothing is to be shown of them anew. -/
theorem Expansion.exists_trees {expansion : Expansion} {path : List Text}
    {segments : List Segment} {pieces : List (List Token)}
    (h : List.Forall₂ (expansion.Grows path) segments pieces) :
    ∃ parts, List.Forall₂ (Derives expansion.grammar expansion.entities) segments parts ∧
      DerivationTree.yieldAll parts = pieces.flatten ∧
      ∀ part ∈ parts, part.NestsIn expansion.limit path := by
  induction h with
  | nil => exact ⟨[], .nil, rfl, nofun⟩
  | cons hgrows _ ih =>
    obtain ⟨tree, htree, rfl, hnests⟩ := hgrows
    obtain ⟨parts, hparts, hyield, hnestsAll⟩ := ih
    refine ⟨tree :: parts, .cons htree hparts, ?_, ?_⟩
    · rw [DerivationTree.yieldAll, hyield, List.flatten_cons]
    · exact List.forall_mem_cons.mpr ⟨hnests, hnestsAll⟩

namespace Expansion

variable {σ : Type} [RandomSource σ] {expansion : Expansion}

/-- A rule that is entered inside a path without repetitions grows from this path. The
recursion is that of the expansion: each rule that is entered makes the path longer. -/
theorem expandRule_satisfies_grows {path : List Text} (hpath : path.Nodup) (id : Text) :
    (expandRule expansion path id : Draw σ (List Token)).Satisfies (fun _ => True)
      (fun _ => True) (expansion.Grows path (.reference id)) := by
  have hdraws : Random.Respects (σ := σ) (fun _ => True) (fun _ => True) (· = .endlessDraw) :=
    Random.respects_any
  cases hrule : expansion.grammar.rule? id with
  | none =>
    rw [expandRule_of_none hrule]
    exact Draw.Satisfies.pure ⟨.leaf [], .undefined hrule, rfl, DerivationTree.nestsIn_leaf _ _ _⟩
  | some rule =>
    by_cases hid : id ∈ path
    · rw [expandRule_of_mem hrule hid]
      exact Draw.Satisfies.throw trivial
    rcases Nat.lt_or_ge path.length expansion.limit with hlimit | hlimit
    · rw [expandRule_of_lt hrule hid hlimit]
      have hchosen := chooseReplacement_satisfies hdraws rule.replacements trivial
      refine (hchosen.mono_fault fun _ _ => trivial).bind fun choice hchoice => ?_
      cases choice with
      | none =>
        refine Draw.Satisfies.pure ⟨.node id [], .empty hrule hchoice, rfl, ?_⟩
        exact DerivationTree.nestsIn_node hpath hid hlimit nofun
      | some template =>
        -- The segments of the template grow from the path with this rule on it.
        have hsegments : (expandSegments expansion (id :: path) (Segment.segments template) :
            Draw σ (List Token)).Satisfies (fun _ => True) (fun _ => True) fun tokens =>
              ∃ pieces, List.Forall₂ (expansion.Grows (id :: path)) (Segment.segments template)
                pieces ∧ tokens = pieces.flatten := by
          apply expandSegments_satisfies_pieces
          · intro text _
            exact ⟨_, .literal text, rfl, DerivationTree.nestsIn_leaf _ _ _⟩
          · intro next _
            exact expandRule_satisfies_grows (List.nodup_cons.mpr ⟨hid, hpath⟩) next
          · intro wildcard _
            have hadds := expandWildcard_satisfies hdraws expansion.entities wildcard
              fun _ _ => trivial
            refine hadds.mono (fun _ _ => trivial) fun tokens htokens => ?_
            exact ⟨_, .wildcard (Entities.realizes_of_adds htokens), rfl,
              DerivationTree.nestsIn_leaf _ _ _⟩
        refine hsegments.mono_result fun tokens htokens => ?_
        obtain ⟨pieces, hpieces, rfl⟩ := htokens
        obtain ⟨parts, hparts, hyield, hnests⟩ := exists_trees hpieces
        exact ⟨.node id parts, .rule hrule hchoice hparts, hyield,
          DerivationTree.nestsIn_node hpath hid hlimit hnests⟩
    · rw [expandRule_of_le hrule hid hlimit]
      exact Draw.Satisfies.throw trivial
termination_by expansion.grammar.unvisited path
decreasing_by exact Grammar.unvisited_cons_lt hrule hid

/-- The tokens of a task are the yield of a derivation tree of its start, whatever the random
source has offered. On each way into the tree no rule comes twice, and there are no more rules
than the limit allows. -/
theorem taskFrom_has_tree (expansion : Expansion) (start : Text) (source : σ) {task : Task}
    (htask : ((expansion.taskFrom start : Draw σ Task).outcome source).1 = .ok task) :
    ∃ tree, Derives expansion.grammar expansion.entities (.reference start) tree ∧
      tree.yield = task.tokens ∧
      ∀ way ∈ tree.ways, way.Nodup ∧ way.length ≤ expansion.limit := by
  have hrule : (expandRule expansion [] start : Draw σ (List Token)).Satisfies (fun _ => True)
      (fun _ => True) (expansion.Grows [] (.reference start)) :=
    expandRule_satisfies_grows List.nodup_nil start
  have hcontract : (expansion.taskFrom start : Draw σ Task).Satisfies (fun _ => True)
      (fun _ => True) fun task => expansion.Grows [] (.reference start) task.tokens := by
    unfold taskFrom
    exact hrule.bind fun tokens htokens => Draw.Satisfies.pure htokens
  obtain ⟨tree, htree, hyield, hnests⟩ := hcontract.result_of_ok trivial htask
  -- A task starts with an empty path, so each way is read from nothing.
  refine ⟨tree, htree, hyield, fun way hway => ?_⟩
  have h := hnests way hway
  rw [List.append_nil, List.nodup_reverse, List.length_reverse] at h
  exact h

/-- A rule with words, a wildcard with a remark, and a rule below it that has nothing to say. -/
def greeting : Grammar :=
  Grammar.ofRules [] .unknown
    [{ id := "$greet".toList, replacements := ["Greet {female meta: politely}$bow".toList] },
      { id := "$bow".toList, replacements := [] }]

/-- Started away from the main rule, with a limit that is just enough, the greeting is told of
the only female name. -/
theorem taskFrom_greeting :
    (((Expansion.mk greeting twoNames 2).taskFrom "$greet".toList : Draw Script Task).outcome
      (Script.ofWords [0])).1
      = .ok { tokens := [.literal "Greet ".toList,
          ⟨"Eve".toList, ["gender: Female".toList, "politely".toList]⟩] } := by
  have hgreet : greeting.rule? "$greet".toList
      = some ⟨"$greet".toList, ["Greet {female meta: politely}$bow".toList]⟩ := rfl
  have hbow : greeting.rule? "$bow".toList = some ⟨"$bow".toList, []⟩ := rfl
  have hscan : Segment.segments "Greet {female meta: politely}$bow".toList
      = [.literal "Greet ".toList, .wildcard ⟨"female".toList, " meta: politely".toList, true⟩,
        .reference "$bow".toList] := by decide +kernel
  have hremark : (⟨"female".toList, " meta: politely".toList, true⟩ : Wildcard).metadata
      = some "politely".toList := by decide +kernel
  have hdrawn : (drawCandidate twoNames (.name .female) : Draw Script (Option Token)).outcome
      (Script.ofWords [0])
      = (.ok (some ⟨"Eve".toList, ["gender: Female".toList]⟩), Script.ofWords [0]) := rfl
  have hname : (expandWildcard twoNames ⟨"female".toList, " meta: politely".toList, true⟩ :
      Draw Script (List Token)).outcome (Script.ofWords [0])
      = (.ok [⟨"Eve".toList, ["gender: Female".toList, "politely".toList]⟩],
        Script.ofWords [0]) := by
    have hkind : (⟨"female".toList, " meta: politely".toList, true⟩ : Wildcard).kind
        = .name .female := by decide
    simp only [expandWildcard, hkind, Draw.outcome_bind, hdrawn, hremark, Draw.outcome_pure]
    rfl
  have hnothing : (expandRule ⟨greeting, twoNames, 2⟩ ["$greet".toList] "$bow".toList :
      Draw Script (List Token)) = pure [] := by
    rw [expandRule_of_lt hbow (by decide) (by decide)]
    rfl
  unfold taskFrom
  rw [expandRule_of_lt hgreet List.not_mem_nil (by decide)]
  simp only [chooseReplacement, pure_bind, expandChosen, hscan, expandSegments,
    Draw.outcome_bind, hname, hnothing, Draw.outcome_pure]
  rfl

/-- The greeting has a tree. -/
theorem taskFrom_has_tree_greeting :
    ∃ tree, Derives greeting twoNames (.reference "$greet".toList) tree ∧
      tree.yield = [.literal "Greet ".toList,
        ⟨"Eve".toList, ["gender: Female".toList, "politely".toList]⟩] ∧
      ∀ way ∈ tree.ways, way.Nodup ∧ way.length ≤ 2 :=
  taskFrom_has_tree ⟨greeting, twoNames, 2⟩ "$greet".toList (Script.ofWords [0]) taskFrom_greeting

end Expansion

end TaskGrammar
