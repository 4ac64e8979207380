import TaskGrammar.Proofs.Text.Lines
import TaskGrammar.Task

/-!
# `TaskGrammar.Proofs.Task.Report`: a report read back

A report has no escapes. Its lines are told apart by their first character alone: a tab starts
an entry, anything else a heading. So a line break in a text, or a tab at the start of a heading,
could pass for structure; everything else may stand in a task: no entries, empty entries,
entries that start with a tab, and a token that is called as the pool of the remarks is. The
theorems:

* `splitOn_report`: the lines of a report are the sentence, an empty line, and the lines of the
  groups.
* `groupsIn_flatMap_lines`: the lines of groups show the groups.
* `readReport_report`: what is read from a report is the sentence and the groups.
* `report_eq_report_iff`: two tasks have the same report exactly if they have the same sentence
  and the same groups.
-/

set_option autoImplicit false

namespace TaskGrammar

/-! ### Groups and their lines -/

namespace MetadataGroup

/-- The lines of a group: the heading, and each entry after a tab. -/
def lines (group : MetadataGroup) : List Text :=
  group.heading :: group.entries.map fun entry => '\t' :: entry

/-- A group whose lines can be told apart. -/
structure IsReadable (group : MetadataGroup) : Prop where
  heading_feed : '\n' ∉ group.heading
  /-- A heading is no entry. -/
  heading_tab : group.heading.head? ≠ some '\t'
  entries_feed : ∀ entry ∈ group.entries, '\n' ∉ entry

/-- The lines of such a group are lines, so a report can be cut at its feeds. -/
theorem IsReadable.notMem_of_mem_lines {group : MetadataGroup} (h : group.IsReadable)
    {line : Text} (hline : line ∈ group.lines) : '\n' ∉ line := by
  rcases List.mem_cons.mp hline with rfl | hentry
  · exact h.heading_feed
  · obtain ⟨entry, hmem, rfl⟩ := List.mem_map.mp hentry
    rw [List.mem_cons, not_or]
    exact ⟨by decide, h.entries_feed entry hmem⟩

end MetadataGroup

namespace Task

/-- The groups that lines show, after the entries that stand before the first heading. -/
def groupsIn : List Text → List Text × List MetadataGroup
  | [] => ([], [])
  | line :: rest =>
    match line with
    | '\t' :: entry => (entry :: (groupsIn rest).1, (groupsIn rest).2)
    | heading => ([], { heading := heading, entries := (groupsIn rest).1 } :: (groupsIn rest).2)

/-- The sentence on the first line of a report, and the groups from the third line on. -/
def readReport (report : Text) : Text × List MetadataGroup :=
  ((Text.splitOn '\n' report).headD [], (groupsIn ((Text.splitOn '\n' report).drop 2)).2)

/-- A line that does not start with a tab begins a group. The entries behind it are in this group
up to the next one. -/
theorem groupsIn_heading {heading : Text} (h : heading.head? ≠ some '\t') (rest : List Text) :
    groupsIn (heading :: rest)
      = ([], { heading := heading, entries := (groupsIn rest).1 } :: (groupsIn rest).2) := by
  rw [groupsIn]
  rintro entry rfl
  exact h rfl

/-- Entries belong to the heading in front of them. They start with a tab, by which they are told
from a heading. -/
theorem groupsIn_entries (entries : List Text) (rest : List Text) :
    groupsIn ((entries.map fun entry => '\t' :: entry) ++ rest)
      = (entries ++ (groupsIn rest).1, (groupsIn rest).2) := by
  induction entries with
  | nil => rfl
  | cons entry entries ih =>
    rw [List.map_cons, List.cons_append, groupsIn, ih]
    rfl

/-- The lines of groups show the groups, and no entries before them. The reader goes from the last
line to the first, so the groups behind are read already when a group is. -/
theorem groupsIn_flatMap_lines {groups : List MetadataGroup}
    (h : ∀ group ∈ groups, group.IsReadable) :
    groupsIn (groups.flatMap MetadataGroup.lines) = ([], groups) := by
  induction groups with
  | nil => rfl
  | cons group groups ih =>
    rw [List.forall_mem_cons] at h
    rw [List.flatMap_cons, MetadataGroup.lines, List.cons_append,
      groupsIn_heading h.1.heading_tab, groupsIn_entries, ih h.2, List.append_nil]

/-! ### Reports -/

/-- A task whose report can be read back. -/
structure IsReadable (task : Task) : Prop where
  text_feed : ∀ token ∈ task.tokens, '\n' ∉ token.text
  metadata_feed : ∀ token ∈ task.tokens, ∀ entry ∈ token.metadata, '\n' ∉ entry
  /-- A text that becomes a heading is no entry. -/
  text_tab : ∀ token ∈ task.tokens, token.metadata ≠ [] → token.text.head? ≠ some '\t'

namespace IsReadable

variable {task : Task}

/-- The sentence of such a task is one line, as all its tokens are. -/
theorem notMem_text (h : task.IsReadable) : '\n' ∉ task.text := by
  intro hmem
  obtain ⟨token, htoken, hfeed⟩ := List.mem_flatMap.mp hmem
  exact h.text_feed token htoken hfeed

/-- And so is every remark of the pool. -/
theorem notMem_remarks (h : task.IsReadable) {entry : Text} (hentry : entry ∈ remarks task.tokens) :
    '\n' ∉ entry := by
  obtain ⟨token, htoken, hmem⟩ := List.mem_flatMap.mp hentry
  exact h.metadata_feed token (List.mem_filter.mp htoken).1 entry hmem

/-- A named group is a token, and the last group is the pool. What is asked of the tokens of a
task is thus all that has to be known of its groups. -/
theorem of_mem_groups (h : task.IsReadable) {group : MetadataGroup} (hgroup : group ∈ task.groups) :
    group.IsReadable := by
  rcases List.mem_append.mp hgroup with hnamed | hpool
  · obtain ⟨token, htoken, rfl⟩ := List.mem_map.mp hnamed
    obtain ⟨hmem, hkept⟩ := List.mem_filter.mp htoken
    -- The token has remarks, so its text does not start with a tab.
    rw [Bool.and_eq_true, Bool.not_eq_true', List.isEmpty_eq_false_iff] at hkept
    exact ⟨h.text_feed token hmem, h.text_tab token hmem hkept.1, h.metadata_feed token hmem⟩
  · split at hpool
    · cases hpool
    · have hfeed : '\n' ∉ remarksHeading := by decide
      have htab : remarksHeading.head? ≠ some '\t' := by decide
      rw [List.mem_singleton.mp hpool]
      exact ⟨hfeed, htab, fun entry hentry => h.notMem_remarks hentry⟩

end IsReadable

/-- A group is reported by its lines, each after a line break. -/
theorem groupReport_eq (group : MetadataGroup) :
    groupReport group = group.lines.flatMap fun line => '\n' :: line := by
  unfold groupReport MetadataGroup.lines
  rw [List.flatMap_cons, List.flatMap_map]
  rfl

/-- A report is a sentence with lines behind it, the first of them empty, each after its line
break. -/
theorem report_eq (task : Task) :
    task.report = task.text ++
      ([] :: task.groups.flatMap MetadataGroup.lines).flatMap fun line => '\n' :: line := by
  -- The line break that ends the sentence is the one before the empty line.
  have hgroups : groupReport = fun group => group.lines.flatMap fun line => '\n' :: line :=
    funext groupReport_eq
  rw [report, hgroups, List.flatMap_cons, List.flatMap_assoc, List.append_assoc]

/-- The lines of a report: the sentence, an empty line, and the lines of the groups. None of them
has a line break in it, so the report is cut where it was put together. -/
theorem splitOn_report {task : Task} (h : task.IsReadable) :
    Text.splitOn '\n' task.report
      = task.text :: [] :: task.groups.flatMap MetadataGroup.lines := by
  rw [report_eq]
  refine Text.splitOn_append_flatMap h.notMem_text fun line hline => ?_
  rcases List.mem_cons.mp hline with rfl | hgroups
  · exact List.not_mem_nil
  · obtain ⟨group, hgroup, hmem⟩ := List.mem_flatMap.mp hgroups
    exact (h.of_mem_groups hgroup).notMem_of_mem_lines hmem

/-- A report is read back. -/
theorem readReport_report {task : Task} (h : task.IsReadable) :
    readReport task.report = (task.text, task.groups) := by
  have hgroups : groupsIn (task.groups.flatMap MetadataGroup.lines) = ([], task.groups) :=
    groupsIn_flatMap_lines fun group hgroup => h.of_mem_groups hgroup
  rw [readReport, splitOn_report h, List.headD_cons, List.drop_succ_cons, List.drop_succ_cons,
    List.drop_zero, hgroups]

/-- A report tells the sentence and the groups, with their headings and their entries in order,
and nothing else: two tasks have the same report exactly if they agree in both. -/
theorem report_eq_report_iff {task other : Task} (h : task.IsReadable) (h' : other.IsReadable) :
    task.report = other.report ↔ task.text = other.text ∧ task.groups = other.groups := by
  constructor
  · intro hreport
    have hread : (task.text, task.groups) = (other.text, other.groups) := by
      rw [← readReport_report h, ← readReport_report h', hreport]
    exact ⟨congrArg Prod.fst hread, congrArg Prod.snd hread⟩
  · rintro ⟨htext, hgroups⟩
    rw [report, report, htext, hgroups]

/-- A token that is called as the pool of the remarks is. It has an empty entry, and one that
starts with a tab. -/
def namesake : Task :=
  ⟨[⟨"remarks".toList, [[], "\tbe polite".toList]⟩]⟩

/-- The same sentence, with the same entries in the pool. -/
def pooled : Task :=
  ⟨[.literal "re".toList, ⟨[], [[]]⟩, .literal "marks".toList, ⟨[], ["\tbe polite".toList]⟩]⟩

/-- Two tasks that differ in their tokens only have the same report. -/
theorem report_eq_report_iff_namesake :
    namesake.IsReadable ∧ pooled.IsReadable ∧ namesake.report = pooled.report ∧
      namesake.text = pooled.text ∧ namesake.groups = pooled.groups := by
  have hnamesake : namesake.IsReadable := ⟨by decide, by decide, by decide⟩
  have hpooled : pooled.IsReadable := ⟨by decide, by decide, by decide⟩
  have hreport : namesake.report = pooled.report := by decide
  exact ⟨hnamesake, hpooled, hreport, (report_eq_report_iff hnamesake hpooled).mp hreport⟩

/-- A heading that starts with a tab passes for an entry of the group in front of it. -/
example :
    Task.report ⟨[⟨"tea".toList, ["hot".toList]⟩, ⟨"\tmilk".toList, ["cold".toList]⟩]⟩
        = Task.report ⟨[⟨"tea".toList, ["hot".toList, "milk".toList, "cold".toList]⟩,
          .literal "\tmilk".toList]⟩ ∧
      Task.groups ⟨[⟨"tea".toList, ["hot".toList]⟩, ⟨"\tmilk".toList, ["cold".toList]⟩]⟩
        ≠ Task.groups ⟨[⟨"tea".toList, ["hot".toList, "milk".toList, "cold".toList]⟩,
          .literal "\tmilk".toList]⟩ := by
  decide

end Task

end TaskGrammar
