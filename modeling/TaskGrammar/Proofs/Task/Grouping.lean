import TaskGrammar.Task

/-!
# `TaskGrammar.Proofs.Task.Grouping`: every remark in one group

`Task.groups` goes over the tokens twice, for the groups with a text of their own and for the pool
of the others. A sentence is put together from parts, though, and a remark must not be lost where
two parts meet, whatever tokens stand there. `Collected` is the walk that takes the tokens one
after the other: at each of them there are three ways to go on, and a remark goes to the one place
or to the other.

* `foldl_add`: a walk that goes on from somewhere adds what a walk from the start collects.
* `groups_ofTokens`: at the end of the walk there are the groups of the task.
* `keeps_add` / `keeps_foldl_add`: a token loses no remark, so a walk loses none.
* `groups_append`: the groups and the text of two parts, and what the groups of any task keep.
-/

set_option autoImplicit false

namespace TaskGrammar

/-! ### One walk over the tokens -/

/-- What a walk over tokens has collected. -/
structure Collected where
  /-- A group for each token with a text and remarks. -/
  named : List MetadataGroup
  /-- The remarks of the tokens without a text. -/
  pool : List Text

namespace Collected

/-- Nothing, where a walk starts. -/
def empty : Collected :=
  { named := [], pool := [] }

/-- One more token. It is passed over without remarks. Otherwise they go to the pool if there is no
text to put them under, and make up a group if there is one. -/
def add (collected : Collected) (token : Token) : Collected :=
  if token.metadata = [] then collected
  else if token.text = [] then { collected with pool := collected.pool ++ token.metadata }
  else
    { collected with
      named := collected.named ++ [{ heading := token.text, entries := token.metadata }] }

/-- What is collected of tokens. -/
def ofTokens (tokens : List Token) : Collected :=
  tokens.foldl add empty

/-- The group of the pool, if there is anything in it. -/
def poolGroups (pool : List Text) : List MetadataGroup :=
  if pool = [] then [] else [{ heading := Task.remarksHeading, entries := pool }]

/-- The groups at the end of a walk. -/
def groups (collected : Collected) : List MetadataGroup :=
  collected.named ++ poolGroups collected.pool

/-- What two walks have collected, one after the other. -/
def append (first second : Collected) : Collected :=
  { named := first.named ++ second.named, pool := first.pool ++ second.pool }

/-! ### Walks one after the other -/

/-- A walk that collects nothing more leaves what there is. -/
theorem append_empty (collected : Collected) : collected.append empty = collected := by
  simp [append, empty]

/-- Where a token goes to does not depend on what is there already. So the remarks of a part of a
task are collected in the same way wherever the part stands. -/
theorem add_append (first second : Collected) (token : Token) :
    (first.append second).add token = first.append (second.add token) := by
  unfold add
  split
  · rfl
  · split <;> simp [append]

/-- A walk that goes on from somewhere adds what a walk from the start collects. From this the law
for tasks one after the other follows without another induction. -/
theorem foldl_add (collected : Collected) (tokens : List Token) :
    tokens.foldl add collected = collected.append (ofTokens tokens) := by
  suffices h : ∀ later, tokens.foldl add (collected.append later)
      = collected.append (tokens.foldl add later) by
    rw [ofTokens, ← h, append_empty]
  induction tokens with
  | nil => exact fun _ => rfl
  | cons token tokens ih =>
    intro later
    rw [List.foldl_cons, List.foldl_cons, add_append, ih]

/-- What is collected of tokens in two parts is collected of each part by itself. Where the
remarks of a token go depends on this token alone. -/
theorem ofTokens_append (before after : List Token) :
    ofTokens (before ++ after) = (ofTokens before).append (ofTokens after) := by
  rw [ofTokens, List.foldl_append, foldl_add]
  rfl

/-- The first token can be looked at by itself. -/
theorem ofTokens_cons (token : Token) (tokens : List Token) :
    ofTokens (token :: tokens) = (empty.add token).append (ofTokens tokens) := by
  rw [ofTokens, List.foldl_cons, foldl_add]

/-- The walk collects the named groups and the pooled remarks of the tokens. A task makes its
groups in two passes, and the walk does with one. -/
theorem ofTokens_eq (tokens : List Token) :
    ofTokens tokens = { named := Task.namedGroups tokens, pool := Task.remarks tokens } := by
  induction tokens with
  | nil => rfl
  | cons token tokens ih =>
    obtain ⟨text, metadata⟩ := token
    rw [ofTokens_cons, ih]
    -- A token without a text is among those of the pool also if it has no remarks to give to it.
    cases metadata <;> cases text <;> rfl

/-- The groups at the end of the walk are the groups of the task. -/
theorem groups_ofTokens (tokens : List Token) :
    (ofTokens tokens).groups = Task.groups ⟨tokens⟩ := by
  rw [ofTokens_eq, groups, Task.groups, poolGroups]
  cases Task.remarks tokens <;> rfl

/-! ### Nothing is lost -/

/-- The remarks of some tokens are all collected, each once, under the token they belong to or in
the pool, where they stand in the order of their tokens. -/
structure Keeps (tokens : List Token) (collected : Collected) : Prop where
  perm : (collected.named.flatMap MetadataGroup.entries ++ collected.pool).Perm
    (tokens.flatMap Token.metadata)
  named : ∀ group ∈ collected.named, ∃ token ∈ tokens, token.metadata ≠ [] ∧ token.text ≠ [] ∧
    group = { heading := token.text, entries := token.metadata }
  pool : ∃ owners : List Token, owners.Sublist tokens ∧ (∀ token ∈ owners, token.text = []) ∧
    collected.pool = owners.flatMap Token.metadata

/-- Before the first token there is nothing to be kept. -/
theorem keeps_empty : Keeps [] empty :=
  ⟨.nil, nofun, [], .slnil, nofun, rfl⟩

/-- The remarks of one more token are kept, and so are those before it. There are three cases: it
has no remarks, it has some but no text, or it makes a group of its own. -/
theorem keeps_add {tokens : List Token} {collected : Collected} (h : Keeps tokens collected)
    (token : Token) : Keeps (tokens ++ [token]) (collected.add token) := by
  have hmore : (tokens ++ [token]).flatMap Token.metadata
      = tokens.flatMap Token.metadata ++ token.metadata := by
    rw [List.flatMap_append, List.flatMap_singleton]
  have hnamed : ∀ group ∈ collected.named, ∃ owner ∈ tokens ++ [token],
      owner.metadata ≠ [] ∧ owner.text ≠ [] ∧
        group = { heading := owner.text, entries := owner.metadata } := by
    intro group hgroup
    obtain ⟨owner, howner, hgroup⟩ := h.named group hgroup
    exact ⟨owner, List.mem_append_left _ howner, hgroup⟩
  obtain ⟨owners, hsublist, hempty, hpool⟩ := h.pool
  have hsublist' : owners.Sublist (tokens ++ [token]) :=
    hsublist.trans (List.sublist_append_left tokens [token])
  unfold add
  split
  · rename_i hnone
    refine ⟨?_, hnamed, owners, hsublist', hempty, hpool⟩
    rw [hmore, hnone, List.append_nil]
    exact h.perm
  · rename_i hsome
    split
    · rename_i htext
      refine ⟨?_, hnamed, owners ++ [token], hsublist.append (List.Sublist.refl _), ?_, ?_⟩
      · rw [hmore, ← List.append_assoc]
        exact h.perm.append_right token.metadata
      · rw [List.forall_mem_append, List.forall_mem_singleton]
        exact ⟨hempty, htext⟩
      · rw [List.flatMap_append, List.flatMap_singleton, hpool]
    · rename_i htext
      refine ⟨?_, ?_, owners, hsublist', hempty, hpool⟩
      · -- The new group stands before the pool, and its remarks behind those of all other tokens.
        have hswap : (collected.named.flatMap MetadataGroup.entries ++
            (token.metadata ++ collected.pool)).Perm
            (collected.named.flatMap MetadataGroup.entries ++
              (collected.pool ++ token.metadata)) :=
          List.perm_append_comm.append_left _
        rw [hmore, List.flatMap_append, List.flatMap_singleton, List.append_assoc]
        refine hswap.trans ?_
        rw [← List.append_assoc]
        exact h.perm.append_right token.metadata
      · rw [List.forall_mem_append, List.forall_mem_singleton]
        exact ⟨hnamed, token, by simp, hsome, htext, rfl⟩

/-- A walk keeps the remarks of the tokens that it goes over. The tokens before it are general, as
they grow with each step. -/
theorem keeps_foldl_add {before : List Token} {collected : Collected}
    (h : Keeps before collected) (tokens : List Token) :
    Keeps (before ++ tokens) (tokens.foldl add collected) := by
  induction tokens generalizing before collected with
  | nil =>
    rw [List.append_nil]
    exact h
  | cons token tokens ih =>
    rw [List.append_cons]
    exact ih (keeps_add h token)

/-- All remarks of a task are kept, by induction on the tokens that were gone through. -/
theorem keeps_ofTokens (tokens : List Token) : Keeps tokens (ofTokens tokens) :=
  keeps_foldl_add keeps_empty tokens

end Collected

/-! ### The groups of a task -/

/-- A group has the remarks of some tokens, one token after the other. They have its heading as
their text, or it is the pool and they have none. -/
structure MetadataGroup.Gathers (group : MetadataGroup) (owners : List Token) : Prop where
  entries : group.entries = owners.flatMap Token.metadata
  heading : (∀ token ∈ owners, token.text = group.heading) ∨
    group.heading = Task.remarksHeading ∧ ∀ token ∈ owners, token.text = []

namespace Task

/-- The groups of a task have something in them, they have each remark as often as the tokens have
it, and the remarks of a group are those of some of the tokens, in token order. -/
structure KeepsRemarks (task : Task) : Prop where
  ne_nil : ∀ group ∈ task.groups, group.entries ≠ []
  count : ∀ entry, (task.groups.flatMap MetadataGroup.entries).count entry
    = (task.tokens.flatMap Token.metadata).count entry
  order : ∀ group ∈ task.groups, ∃ owners : List Token,
    owners.Sublist task.tokens ∧ group.Gathers owners

/-- The group of the pool has what is in the pool, also if it is left out for being empty. -/
theorem flatMap_entries_poolGroups (pool : List Text) :
    (Collected.poolGroups pool).flatMap MetadataGroup.entries = pool := by
  unfold Collected.poolGroups
  split
  · rename_i hpool
    rw [hpool]
    rfl
  · exact List.flatMap_singleton _ _

/-- A group of a walk is the group of a token or that of the pool. The group of the pool is there
only if there is something in it. -/
theorem mem_groups_collected {collected : Collected} {group : MetadataGroup}
    (h : group ∈ collected.groups) :
    group ∈ collected.named ∨
      collected.pool ≠ [] ∧ group = { heading := remarksHeading, entries := collected.pool } := by
  refine (List.mem_append.mp h).imp_right fun hpool => ?_
  unfold Collected.poolGroups at hpool
  split at hpool
  · cases hpool
  · rename_i hne
    exact ⟨hne, List.mem_singleton.mp hpool⟩

/-- No group is empty, no remark is lost or doubled, and the remarks of a group are those of its
tokens in their order. -/
theorem keepsRemarks (task : Task) : task.KeepsRemarks := by
  obtain ⟨tokens⟩ := task
  have hkeeps := Collected.keeps_ofTokens tokens
  constructor
  · -- There is no group without entries: a token without remarks makes none.
    intro group hgroup
    rw [← Collected.groups_ofTokens] at hgroup
    rcases mem_groups_collected hgroup with hnamed | ⟨hpool, rfl⟩
    · obtain ⟨token, -, hmetadata, -, rfl⟩ := hkeeps.named group hnamed
      exact hmetadata
    · exact hpool
  · intro entry
    rw [← Collected.groups_ofTokens, Collected.groups, List.flatMap_append,
      flatMap_entries_poolGroups]
    exact hkeeps.perm.count_eq entry
  · intro group hgroup
    rw [← Collected.groups_ofTokens] at hgroup
    rcases mem_groups_collected hgroup with hnamed | ⟨-, rfl⟩
    · obtain ⟨token, htoken, -, -, rfl⟩ := hkeeps.named group hnamed
      exact ⟨[token], List.singleton_sublist.mpr htoken, (List.flatMap_singleton _ _).symm,
        .inl (List.forall_mem_singleton.mpr rfl)⟩
    · obtain ⟨owners, hsublist, hempty, hentries⟩ := hkeeps.pool
      exact ⟨owners, hsublist, hentries, .inr ⟨rfl, hempty⟩⟩

/-- Writing a task token by token puts its text behind what has been written. -/
theorem writeTo_eq (written : Text) (task : Task) :
    task.writeTo written = written ++ task.text := by
  obtain ⟨tokens⟩ := task
  show tokens.foldl (fun written token => written ++ token.text) written
    = written ++ tokens.flatMap Token.text
  induction tokens generalizing written with
  | nil => exact (List.append_nil written).symm
  | cons token tokens ih => rw [List.foldl_cons, ih, List.flatMap_cons, List.append_assoc]

/-- The groups of two parts are the named groups of the first one, those of the second one, and one
group of what is in the pools of both, if there is anything. The text is the text of the first part
and that of the second one. For every task the groups are the named ones and the pool; no group is
empty, no remark is lost, doubled or moved, and what is written for the task is its text. -/
theorem groups_append (first second : List Token) :
    Task.groups ⟨first ++ second⟩
        = (Collected.ofTokens first).named ++ (Collected.ofTokens second).named ++
          Collected.poolGroups
            ((Collected.ofTokens first).pool ++ (Collected.ofTokens second).pool) ∧
      Task.text ⟨first ++ second⟩ = Task.text ⟨first⟩ ++ Task.text ⟨second⟩ ∧
      ∀ task : Task, task.groups = (Collected.ofTokens task.tokens).groups ∧ task.KeepsRemarks ∧
        task.writeTo [] = task.text := by
  refine ⟨?_, List.flatMap_append, fun task => ⟨?_, task.keepsRemarks, task.writeTo_eq []⟩⟩
  · rw [← Collected.groups_ofTokens, Collected.ofTokens_append]
    rfl
  · exact (Collected.groups_ofTokens task.tokens).symm

/-- Two parts with a pool each. A token that is called as the pool is keeps its own group. -/
example :
    Task.groups ⟨[⟨[], ["ask first".toList]⟩, ⟨"remarks".toList, ["loud".toList]⟩] ++
        [.literal " to ".toList, ⟨[], ["wave".toList]⟩]⟩
      = [⟨"remarks".toList, ["loud".toList]⟩,
        ⟨"remarks".toList, ["ask first".toList, "wave".toList]⟩] := by
  decide

end Task

end TaskGrammar
