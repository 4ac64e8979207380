import TaskGrammar.Proofs.Expansion.Faults

/-!
# `TaskGrammar.Proofs.Expansion.Walk`: an expansion step by step

`expandRule` is a function: it takes the path and gives the tokens. A machine that expands a rule
has one path and one list of tokens, which all calls share. Each call pushes its rule, lets the
calls below it do the same, and takes it off again. It has a stack of calls, which can be exhausted,
and nothing says beforehand that it will not be. `walkRule` is this machine, with a record of the
paths that it has been on.

* `Walking.Does`: a computation on a walk does what a computation with draws does, and comes to an
  end if there is room. There is one lemma for each way to put such computations together.
* `walkRule_does`: so does the machine. Room is a place on the stack for each rule that can still be
  entered, and then no path repeats a rule.
* `walkRule_ok`: without a fault a call leaves the path as it was and adds to the tokens.
* `walkRule_ends`: all of this, for the expansion of a start rule.
-/

set_option autoImplicit false

namespace TaskGrammar

/-! ### The machine -/

/-- What the calls of a walk share. -/
structure Walk (σ : Type) where
  /-- The rules that the walk is inside of, the innermost first. -/
  path : List Text
  tokens : List Token
  /-- The paths so far: of each call the one that it has found, and the one with its rule on it if
  the call has entered the rule. -/
  paths : List (List Text)
  source : σ

/-- The walk before its first call. -/
def Walk.begin {σ : Type} (source : σ) : Walk σ :=
  { path := [], tokens := [], paths := [], source := source }

/-- Computations on a walk. They may fail, and leave the walk as it is then, or exhaust the stack
and have no outcome. -/
abbrev Walking (σ : Type) : Type → Type :=
  ExceptT Fault (StateT (Walk σ) Option)

namespace Walking

variable {σ α : Type}

/-- What a computation does to a walk, if the stack is large enough. -/
def outcome (walking : Walking σ α) (walk : Walk σ) : Option (Except Fault α × Walk σ) :=
  walking.run.run walk

/-- The end of the stack. -/
def overflow : Walking σ α :=
  ExceptT.mk fun _ => none

def change (f : Walk σ → Walk σ) : Walking σ Unit :=
  ExceptT.mk fun walk => some (.ok (), f walk)

/-- Draws from the source of the walk. -/
def draw (draw : Draw σ α) : Walking σ α :=
  ExceptT.mk fun walk =>
    some ((draw.outcome walk.source).1, { walk with source := (draw.outcome walk.source).2 })

def path : Walking σ (List Text) :=
  ExceptT.mk fun walk => some (.ok walk.path, walk)

/-- Writes the path down. -/
def note : Walking σ Unit :=
  change fun walk => { walk with paths := walk.paths ++ [walk.path] }

def push (id : Text) : Walking σ Unit :=
  change fun walk => { walk with path := id :: walk.path }

def pop : Walking σ Unit :=
  change fun walk => { walk with path := walk.path.tail }

/-- Pushes a rule before a computation and takes it off afterwards, but not after a fault. -/
def inside (id : Text) (walking : Walking σ Unit) : Walking σ Unit := do
  push id
  walking
  pop

def say (tokens : List Token) : Walking σ Unit :=
  change fun walk => { walk with tokens := walk.tokens ++ tokens }

/-- Says what a computation draws, if it draws something. -/
def sayDrawn (drawn : Draw σ (List Token)) : Walking σ Unit := do
  let tokens ← draw drawn
  say tokens

end Walking

namespace Expansion

variable {σ : Type} [RandomSource σ]

/-- Says a run of segments; `call` stands for the calls that its references make. -/
def walkSegments (expansion : Expansion) (call : Text → Walking σ Unit) :
    List Segment → Walking σ Unit
  | [] => pure ()
  | .literal text :: rest => do
    Walking.say [.literal text]
    walkSegments expansion call rest
  | .reference id :: rest => do
    call id
    walkSegments expansion call rest
  | .wildcard wildcard :: rest => do
    Walking.sayDrawn (expandWildcard expansion.entities wildcard)
    walkSegments expansion call rest

/-- Calls a rule, with so many places left on the stack of calls. -/
def walkRule (expansion : Expansion) : Nat → Text → Walking σ Unit
  | 0, _ => Walking.overflow
  | room + 1, id => do
    Walking.note
    match expansion.grammar.rule? id with
    | none => pure ()
    | some rule => do
      let path ← Walking.path
      if rule.id ∈ path then throw (.cyclicGrammar (rule.id :: path).reverse)
      else if expansion.limit ≤ path.length then throw (.recursionLimit rule.id expansion.limit)
      else do
        match ← Walking.draw (chooseReplacement rule.replacements) with
        | none => pure ()
        | some template => do
          Walking.inside rule.id do
            Walking.note
            walkSegments expansion (walkRule expansion room) (Segment.segments template)

end Expansion

/-! ### Computations on a walk -/

namespace Walking

variable {σ α β : Type}

/-- A draw takes the source of the walk on and leaves the rest of the walk as it was. -/
@[simp]
theorem outcome_draw (draw : Draw σ α) (walk : Walk σ) :
    (Walking.draw draw).outcome walk
      = some ((draw.outcome walk.source).1,
          { walk with source := (draw.outcome walk.source).2 }) :=
  rfl

/-- A change is made at once and cannot fail. -/
@[simp]
theorem outcome_change (f : Walk σ → Walk σ) (walk : Walk σ) :
    (change f).outcome walk = some (.ok (), f walk) :=
  rfl

/-- A second computation is reached only with a result of the first. After a fault the walk stays
as it is then, and where the stack is at its end there is no walk left to speak of. -/
theorem outcome_bind (walking : Walking σ α) (next : α → Walking σ β) (walk : Walk σ) :
    (walking >>= next).outcome walk =
      match walking.outcome walk with
      | none => none
      | some (.ok a, later) => (next a).outcome later
      | some (.error fault, later) => some (.error fault, later) := by
  show ((walking.run.run walk).bind fun ended =>
    (ExceptT.bindCont next ended.1).run ended.2) = _
  unfold outcome
  rcases walking.run.run walk with _ | ⟨_ | _, later⟩ <;> rfl

/-- What is left of a walk that had this path and these tokens: after a result the path is as it
was, and the tokens of the result have been added. After a fault nothing is said of the two. -/
inductive Said (path : List Text) (before : List Token) (later : Walk σ) :
    Except Fault (List Token) → Except Fault Unit → Prop
  | ok {tokens : List Token} (back : later.path = path) (added : later.tokens = before ++ tokens) :
      Said path before later (.ok tokens) (.ok ())
  | error (fault : Fault) : Said path before later (.error fault) (.error fault)

/-- What has happened to a walk when a computation on it is at its end: the same as in the
computation `draw`, on some paths, which are good ones if there was room. -/
structure Ended (roomy : Prop) (good : List Text → Prop) (draw : Draw σ (List Token))
    (walk later : Walk σ) (result : Except Fault Unit) : Prop where
  said : Said walk.path walk.tokens later (draw.outcome walk.source).1 result
  source : later.source = (draw.outcome walk.source).2
  paths : ∃ paths, later.paths = walk.paths ++ paths ∧ (roomy → ∀ path ∈ paths, good path)

/-- From inside a path a computation on a walk does what `draw` does, or exhausts the stack. It does
not exhaust the stack if there is room. -/
def Does (roomy : Prop) (good : List Text → Prop) (path : List Text) (walking : Walking σ Unit)
    (draw : Draw σ (List Token)) : Prop :=
  ∀ walk : Walk σ, walk.path = path →
    (walking.outcome walk = none ∧ ¬ roomy) ∨
      ∃ result later, walking.outcome walk = some (result, later) ∧
        Ended roomy good draw walk later result

namespace Does

variable {roomy : Prop} {good : List Text → Prop} {path : List Text}

/-- What says nothing adds no tokens. -/
protected theorem pure : Does roomy good path (pure () : Walking σ Unit) (pure []) := by
  intro walk _
  refine .inr ⟨.ok (), walk, rfl, .ok rfl (List.append_nil _).symm, rfl, [], ?_, nofun⟩
  exact (List.append_nil _).symm

/-- A fault is a fault on both sides, and no path has been found. -/
protected theorem throw (fault : Fault) :
    Does roomy good path (throw fault : Walking σ Unit) (throw fault) := by
  intro walk _
  exact .inr ⟨.error fault, walk, rfl, .error fault, rfl, [], (List.append_nil _).symm, nofun⟩

/-- What is said is added to the tokens, and is the result on the other side. -/
theorem say (tokens : List Token) :
    Does roomy good path (say tokens : Walking σ Unit) (pure tokens) := by
  intro walk _
  exact .inr ⟨.ok (), _, rfl, .ok rfl rfl, rfl, [], (List.append_nil _).symm, nofun⟩

/-- Where there is no room, the end of the stack may come instead of anything. -/
theorem overflow (draw : Draw σ (List Token)) (h : ¬ roomy) :
    Does roomy good path (overflow : Walking σ Unit) draw :=
  fun _ _ => .inl ⟨rfl, h⟩

/-- A choice that is drawn from the walk's source comes out as it would from the source alone. The
tokens and the path are not touched by a draw. -/
theorem draw_bind {drawn : Draw σ α} {next : α → Walking σ Unit}
    {next' : α → Draw σ (List Token)} (hnext : ∀ a, Does roomy good path (next a) (next' a)) :
    Does roomy good path (Walking.draw drawn >>= next) (drawn >>= next') := by
  intro walk hpath
  rw [outcome_bind, outcome_draw]
  rcases hrun : drawn.outcome walk.source with ⟨f | a, source⟩
  · -- A fault of the draw ends both, with the source where it was left.
    refine .inr ⟨.error f, _, rfl, ?_, ?_, [], (List.append_nil _).symm, nofun⟩
    · rw [Draw.outcome_bind, hrun]
      exact .error f
    · rw [Draw.outcome_bind, hrun]
  · refine (hnext a { walk with source := source } hpath).imp_right ?_
    rintro ⟨result, later, hlater, hsaid, hsource, hpaths⟩
    refine ⟨result, later, hlater, ?_, ?_, hpaths⟩
    · rw [Draw.outcome_bind, hrun]
      exact hsaid
    · rw [Draw.outcome_bind, hrun]
      exact hsource

/-- One computation after the other adds the tokens of both. The second one starts from the path
that the first one has left as it was. -/
theorem seq {first second : Walking σ Unit} {draw draw' : Draw σ (List Token)}
    (h : Does roomy good path first draw) (h' : Does roomy good path second draw') :
    Does roomy good path (first >>= fun _ => second)
      (draw >>= fun tokens => draw' >>= fun more => pure (tokens ++ more)) := by
  intro walk hpath
  rw [outcome_bind]
  rcases h walk hpath with ⟨hnone, hroom⟩ | ⟨result, middle, hmiddle, hsaid, hsource, hpaths⟩
  · rw [hnone]
    exact .inl ⟨rfl, hroom⟩
  obtain ⟨paths, hpaths, hgood⟩ := hpaths
  rw [hmiddle]
  rcases hrun : draw.outcome walk.source with ⟨ran, source⟩
  rw [hrun] at hsaid hsource
  cases hsaid with
  | error f =>
    -- The second computation is not begun.
    refine .inr ⟨.error f, middle, rfl, ?_, ?_, paths, hpaths, hgood⟩
    · rw [Draw.outcome_bind, hrun]
      exact .error f
    · rw [Draw.outcome_bind, hrun]
      exact hsource
  | @ok tokens back added =>
    rcases h' middle (back.trans hpath) with ⟨hnone, hroom⟩ |
      ⟨result, later, hlater, hsaid', hsource', paths', hpaths', hgood'⟩
    · exact .inl ⟨hnone, hroom⟩
    rw [hsource] at hsaid' hsource'
    rcases hrun' : draw'.outcome source with ⟨ran', source'⟩
    rw [hrun'] at hsaid' hsource'
    -- What the two draws come to, one after the other.
    have hboth : (draw >>= fun tokens => draw' >>= fun more => pure (tokens ++ more)).outcome
        walk.source = (ran'.map (tokens ++ ·), source') := by
      rw [Draw.outcome_bind, hrun]
      show (draw' >>= _).outcome source = _
      rw [Draw.outcome_bind, hrun']
      cases ran' <;> rfl
    refine .inr ⟨result, later, hlater, ?_, ?_, paths ++ paths', ?_, ?_⟩
    · rw [hboth]
      cases hsaid' with
      | error f => exact .error f
      | ok back' added' =>
        exact .ok (back'.trans back) (by rw [added', added, List.append_assoc])
    · rw [hboth]
      exact hsource'
    · rw [hpaths', hpaths, List.append_assoc]
    · intro hroom other hother
      rcases List.mem_append.mp hother with hfirst | hsecond
      · exact hgood hroom other hfirst
      · exact hgood' hroom other hsecond

/-- Writing a good path down changes nothing else. The path that is written down is the one that
the walk is at, so it is enough that this one is good. -/
theorem note {walking : Walking σ Unit} {draw : Draw σ (List Token)}
    (h : Does roomy good path walking draw) (hgood : roomy → good path) :
    Does roomy good path (Walking.note >>= fun _ => walking) draw := by
  rintro walk rfl
  rw [Walking.note, outcome_bind, outcome_change]
  refine (h { walk with paths := walk.paths ++ [walk.path] } rfl).imp_right ?_
  rintro ⟨result, later, hlater, hsaid, hsource, paths, hpaths, hgood'⟩
  refine ⟨result, later, hlater, hsaid, hsource, walk.path :: paths, ?_, ?_⟩
  · rw [hpaths, List.append_assoc, List.singleton_append]
  · intro hroom
    exact List.forall_mem_cons.mpr ⟨hgood hroom, hgood' hroom⟩

/-- Looking at the path shows the path. -/
theorem look {next : List Text → Walking σ Unit} {draw : Draw σ (List Token)}
    (h : Does roomy good path (next path) draw) :
    Does roomy good path (Walking.path >>= next) draw := by
  rintro walk rfl
  exact h walk rfl

/-- Between a push and a pop the path is longer by one rule, and afterwards it is not. The inner
part is known to leave the path as it found it, so that the pop takes off what was pushed. -/
theorem inside {id : Text} {walking : Walking σ Unit} {draw : Draw σ (List Token)}
    (h : Does roomy good (id :: path) walking draw) :
    Does roomy good path (Walking.inside id walking) draw := by
  rintro walk rfl
  rw [Walking.inside, Walking.push, outcome_bind, outcome_change]
  dsimp only
  rw [outcome_bind]
  rcases h { walk with path := id :: walk.path } rfl with ⟨hnone, hroom⟩ |
    ⟨result, later, hlater, hsaid, hsource, hpaths⟩
  · rw [hnone]
    exact .inl ⟨rfl, hroom⟩
  rw [hlater]
  refine .inr ?_
  rcases hrun : draw.outcome walk.source with ⟨ran, source⟩
  rw [hrun] at hsaid hsource
  cases hsaid with
  | error f =>
    -- After a fault the rule stays on the path, of which nothing is said then.
    refine ⟨.error f, later, rfl, ?_, ?_, hpaths⟩
    · rw [hrun]
      exact .error f
    · rw [hrun]
      exact hsource
  | ok back added =>
    -- What was pushed is on top again, so it is what is popped.
    refine ⟨.ok (), { later with path := later.path.tail }, rfl, ?_, ?_, hpaths⟩
    · rw [hrun]
      exact .ok (congrArg List.tail back) added
    · rw [hrun]
      exact hsource

/-- What is drawn is said. -/
theorem sayDrawn {drawn : Draw σ (List Token)} :
    Does roomy good path (Walking.sayDrawn drawn) drawn := by
  have h : Does roomy good path (Walking.draw drawn >>= Walking.say) (drawn >>= pure) :=
    draw_bind say
  rwa [bind_pure] at h

end Does

end Walking

namespace Expansion

variable {σ : Type} [RandomSource σ] {roomy : Prop} {good : List Text → Prop}

/-- A walk over a run of segments does what the expansion of the run does, if the calls that its
references make do. The induction is on the segments; the stack is a matter of the calls only. -/
theorem walkSegments_does {expansion : Expansion} {path : List Text}
    {call : Text → Walking σ Unit} {segments : List Segment}
    (hcall : ∀ id, Segment.reference id ∈ segments →
      Walking.Does roomy good path (call id) (expandRule expansion path id)) :
    Walking.Does roomy good path (walkSegments expansion call segments)
      (expandSegments expansion path segments) := by
  induction segments with
  | nil =>
    rw [walkSegments, expandSegments]
    exact .pure
  | cons segment rest ih =>
    have hrest := ih fun id hid => hcall id (List.mem_cons_of_mem _ hid)
    cases segment with
    | literal text =>
      rw [walkSegments, expandSegments]
      have h := (Walking.Does.say [Token.literal text]).seq hrest
      rwa [pure_bind] at h
    | reference id =>
      rw [walkSegments, expandSegments]
      exact (hcall id List.mem_cons_self).seq hrest
    | wildcard wildcard =>
      rw [walkSegments, expandSegments]
      exact Walking.Does.sayDrawn.seq hrest

/-- Distinct rules of the table, no more of them than the limit allows. -/
structure Admits (expansion : Expansion) (path : List Text) : Prop where
  distinct : path.Nodup
  defined : ∀ id ∈ path, expansion.grammar.contains id = true
  within : path.length ≤ expansion.limit

/-- With a new rule of the table on it, a path that is not full yet is still admitted. The three
parts are what the machine has checked when it pushes the rule. -/
theorem Admits.cons {expansion : Expansion} {path : List Text} (h : expansion.Admits path)
    {rule : Rule} (hrule : expansion.grammar.rule? rule.id = some rule) (hfresh : rule.id ∉ path)
    (hlimit : path.length < expansion.limit) : expansion.Admits (rule.id :: path) where
  distinct := List.nodup_cons.mpr ⟨hfresh, h.distinct⟩
  defined := List.forall_mem_cons.mpr ⟨Grammar.contains_of_rule? hrule, h.defined⟩
  within := hlimit

/-- A walk that is asked for a rule does what the expansion of the rule does. There is room for it
if its path is admitted and there is a place on the stack for each rule that it can still enter,
and one more for the call that finds that it can enter no other. -/
theorem walkRule_does (expansion : Expansion) (room : Nat) {path : List Text} {id : Text}
    (hroom : roomy → expansion.Admits path ∧
      min (expansion.limit - path.length) (expansion.grammar.unvisited path) < room) :
    Walking.Does roomy expansion.Admits path (walkRule expansion room id : Walking σ Unit)
      (expandRule expansion path id) := by
  induction room generalizing path id with
  | zero =>
    refine .overflow _ fun h => ?_
    exact Nat.not_lt_zero _ (hroom h).2
  | succ room ih =>
    refine .note ?_ fun h => (hroom h).1
    cases hrule : expansion.grammar.rule? id with
    | none =>
      rw [expandRule_of_none hrule]
      exact .pure
    | some rule =>
      obtain rfl : rule.id = id := (Grammar.rule?_eq_some hrule).2
      refine .look ?_
      by_cases hid : rule.id ∈ path
      · rw [if_pos hid, expandRule_of_mem hrule hid]
        exact .throw _
      rw [if_neg hid]
      by_cases hlimit : expansion.limit ≤ path.length
      · rw [if_pos hlimit, expandRule_of_le hrule hid hlimit]
        exact .throw _
      have hbelow := Nat.lt_of_not_le hlimit
      rw [if_neg hlimit, expandRule_of_lt hrule hid hbelow]
      refine .draw_bind fun choice => ?_
      cases choice with
      | none => exact .pure
      | some template =>
        have hinside : roomy → expansion.Admits (rule.id :: path) :=
          fun h => (hroom h).1.cons hrule hid hbelow
        refine .inside (.note (walkSegments_does fun next _ => ih fun h => ?_) hinside)
        refine ⟨hinside h, ?_⟩
        -- Entering the rule uses up one place under the limit and one rule of the table.
        have hunvisited := Grammar.unvisited_cons_lt hrule hid
        have hmeasure := (hroom h).2
        rw [List.length_cons]
        omega

/-- A call that is at its end without a fault has left the path as it was, and has done nothing to
the tokens but add some. This holds whatever the call has started from. -/
theorem walkRule_ok (expansion : Expansion) {room : Nat} {id : Text} {walk later : Walk σ}
    (hok : (walkRule expansion room id).outcome walk = some (.ok (), later)) :
    later.path = walk.path ∧ walk.tokens <+: later.tokens := by
  -- If nothing is said of room, nothing is needed of the path.
  have hdoes : Walking.Does False expansion.Admits walk.path
      (walkRule expansion room id : Walking σ Unit) (expandRule expansion walk.path id) :=
    walkRule_does expansion room nofun
  rcases hdoes walk rfl with ⟨hnone, -⟩ | ⟨result, last, hlast, hsaid, -, -⟩
  · rw [hok] at hnone
    cases hnone
  · rw [hok] at hlast
    cases hlast
    cases hrun : ((expandRule expansion walk.path id).outcome walk.source).1 with
    | error fault =>
      rw [hrun] at hsaid
      cases hsaid
    | ok tokens =>
      rw [hrun] at hsaid
      cases hsaid with
      | ok back added => exact ⟨back, tokens, added.symm⟩

/-- What is left of a walk that began with nothing is what the task would be. The walk collects
the tokens as it goes, and the task has them as a result. -/
theorem taskFrom_outcome_of_ended {expansion : Expansion} {start : Text} {source : σ}
    {last : Walk σ} {result : Except Fault Unit}
    (h : Walking.Ended roomy good (expandRule expansion [] start) (Walk.begin source) last result) :
    (expansion.taskFrom start : Draw σ Task).outcome source
      = (result.map fun _ => { tokens := last.tokens }, last.source) := by
  obtain ⟨hsaid, hsource, -⟩ := h
  unfold taskFrom
  rw [Draw.outcome_bind]
  rcases hrun : (expandRule expansion [] start).outcome source with ⟨ran, later⟩
  rw [show (Walk.begin source).source = source from rfl, hrun] at hsaid hsource
  cases hsaid with
  | error fault =>
    rw [hsource]
    rfl
  | ok back added =>
    rw [hsource, added]
    rfl

/-- Every expansion comes to an end, whatever the grammar and the limit, on a stack with a place for
each rule that can be entered and one more. It ends as `taskFrom` does, and where draws end it does
not fail for want of a word. The path is at all times one of distinct rules of the table, so the
rules are never nested deeper than the limit and the size of the table allow. And a call without a
fault, in this expansion or from anywhere else, leaves the path as it was and only adds to the
tokens. -/
theorem walkRule_ends (expansion : Expansion) (start : Text) (source : σ) {room : Nat}
    (hroom : min expansion.limit expansion.grammar.size < room) :
    (∃ result last,
      (walkRule expansion room start).outcome (Walk.begin source) = some (result, last) ∧
      (expansion.taskFrom start : Draw σ Task).outcome source
        = (result.map fun _ => { tokens := last.tokens }, last.source) ∧
      (Random.DrawsEnd expansion.DrawsBelow source → result ≠ .error .endlessDraw) ∧
      ∀ path ∈ last.paths, path.Nodup ∧
        (∀ id ∈ path, id ∈ expansion.grammar.rules.map Rule.id) ∧
        path.length ≤ min expansion.limit expansion.grammar.size) ∧
    ∀ (places : Nat) (id : Text) (walk later : Walk σ),
      (walkRule expansion places id).outcome walk = some (.ok (), later) →
        later.path = walk.path ∧ walk.tokens <+: later.tokens := by
  refine ⟨?_, fun places id walk later => walkRule_ok expansion⟩
  have hunvisited : expansion.grammar.unvisited [] ≤ expansion.grammar.size :=
    List.length_filter_le _ _
  have hmeasure : min (expansion.limit - 0) (expansion.grammar.unvisited []) < room := by omega
  have hadmits : expansion.Admits [] := ⟨List.nodup_nil, nofun, Nat.zero_le _⟩
  have hdoes : Walking.Does True expansion.Admits []
      (walkRule expansion room start : Walking σ Unit) (expandRule expansion [] start) :=
    walkRule_does expansion room fun _ => ⟨hadmits, hmeasure⟩
  -- With enough room the walk is not stuck for want of a place.
  rcases hdoes (Walk.begin source) rfl with ⟨-, hstuck⟩ | ⟨result, last, hlast, hended⟩
  · exact absurd trivial hstuck
  have htask : (expansion.taskFrom start : Draw σ Task).outcome source
      = (result.map fun _ => { tokens := last.tokens }, last.source) :=
    taskFrom_outcome_of_ended hended
  refine ⟨result, last, hlast, htask, ?_, ?_⟩
  · rintro hends rfl
    -- No fault that the grammar explains is an unending draw.
    cases explains_of_drawsEnd hends (congrArg Prod.fst htask)
  · intro path hpath
    obtain ⟨paths, hpaths, hgood⟩ := hended.paths
    rw [hpaths] at hpath
    have hadmitted := hgood trivial path hpath
    refine ⟨hadmitted.distinct, fun id hid => ?_, le_min hadmitted.within ?_⟩
    · exact Grammar.contains_iff_mem_ids.mp (hadmitted.defined id hid)
    · exact Grammar.length_le_size hadmitted.distinct hadmitted.defined

/-- With the largest limit there is, it is the four rules of the roundabout that bound the walk.
Five places on the stack are enough for it. -/
theorem walkRule_ends_roundabout :
    min (UInt64.size - 1) roundabout.size < 5 ∧
    Random.DrawsEnd (Expansion.mk roundabout .empty (UInt64.size - 1)).DrawsBelow
      (Script.ofWords [0]) ∧
    ∃ last : Walk Script,
      (walkRule ⟨roundabout, .empty, UInt64.size - 1⟩ 5 "$Main".toList).outcome
        (Walk.begin (Script.ofWords [0]))
        = some (.error (.cyclicGrammar
            ["$Main".toList, "$turn".toList, "$back".toList, "$turn".toList]), last) ∧
      ((Expansion.mk roundabout .empty (UInt64.size - 1)).taskFrom "$Main".toList :
        Draw Script Task).outcome (Script.ofWords [0])
        = (.error (.cyclicGrammar
            ["$Main".toList, "$turn".toList, "$back".toList, "$turn".toList]), last.source) ∧
      last.paths.dedup = [[], ["$Main".toList], ["$turn".toList, "$Main".toList],
        ["$back".toList, "$turn".toList, "$Main".toList]] ∧
      ∀ path ∈ last.paths, path.Nodup ∧ path.length ≤ 4 := by
  have hroom : min (UInt64.size - 1) roundabout.size < 5 := by decide
  obtain ⟨⟨result, last, hwalk, htask, -, hgood⟩, -⟩ :=
    walkRule_ends ⟨roundabout, .empty, UInt64.size - 1⟩ "$Main".toList (Script.ofWords [0]) hroom
  have hrun : ((walkRule ⟨roundabout, .empty, UInt64.size - 1⟩ 5 "$Main".toList).outcome
      (Walk.begin (Script.ofWords [0]))).map (fun ended => (ended.1, ended.2.paths.dedup))
      = some (.error (.cyclicGrammar
          ["$Main".toList, "$turn".toList, "$back".toList, "$turn".toList]),
        [[], ["$Main".toList], ["$turn".toList, "$Main".toList],
          ["$back".toList, "$turn".toList, "$Main".toList]]) := by
    decide +kernel
  rw [hwalk, Option.map_some, Option.some.injEq, Prod.mk.injEq] at hrun
  obtain ⟨rfl, hpaths⟩ := hrun
  refine ⟨hroom, Script.drawsEnd_zero _, last, hwalk, htask, hpaths, fun path hpath => ?_⟩
  obtain ⟨hnodup, -, hlength⟩ := hgood path hpath
  exact ⟨hnodup, hlength.trans (min_le_right _ _)⟩

end Expansion

end TaskGrammar
