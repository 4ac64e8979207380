import TaskGrammar.Proofs.Dialogue.Lines
import TaskGrammar.Proofs.Dialogue.ReadBack
import TaskGrammar.Storage.FileTree

/-!
# `TaskGrammar.Proofs.CommandLine.Agreement`: codes on the command line and in a dialogue

A code can be given on the command line or asked for in a dialogue. The command line looks up
the tier first and tells a bad code from a task that cannot be generated. A dialogue leaves
both to the generator and gives the request back either way. Each of them goes on with the
random source where the last code has left it, so one draw more for a refusal on one side would
change all that follows.

What is compared is what a user sees: the texts that `generate` prints and the notices it
gives, and the response lines of a dialogue. A report, the line about a bad code and a notice
are spelled out here apart from the definitions that print them. The theorems:

* `ofLine?_asking`: the line that asks for a trimmed code is the request for this code.
* `announce_agrees`: for one code both sides say the same and leave the same source behind.
* `announceAll_agrees`: so they do for several codes, one by one.
* `serve_agrees_with_announceAll`: the output and the notices of `generate` for some codes, and
  the responses to the lines that ask for them in a dialogue.
-/

set_option autoImplicit false

namespace TaskGrammar

/-! ### The line that asks for a code -/

namespace Request

/-- The line of a request for a sentence with a code. -/
def asking (code : Text) : Text :=
  speechCommand ++ ' ' :: code

/-- The line that asks for a trimmed code is the request for this code. An empty code is one, too:
the blank behind the command is trimmed away, and the parameters are empty. -/
theorem ofLine?_asking {code : Text} (hcode : Text.trim code = code) :
    ofLine? (asking code) = some ⟨speechCommand, code⟩ := by
  have hvisible : ∀ c ∈ speechCommand, Text.isBlank c = false := by
    -- To decide the statement as it stands is to go through all characters there are.
    intro c hc
    have hall : (speechCommand.all fun c => !Text.isBlank c) = true := by decide
    simpa using List.all_eq_true.mp hall c hc
  have hread : IsRead ⟨speechCommand, code⟩ := ⟨List.cons_ne_nil _ _, hvisible, hcode⟩
  exact ofLine?_joined hread (show [' '].all Text.isBlank = true from rfl) (List.cons_ne_nil _ _)

/-- Lines that ask for codes are the requests for these codes, in order. No line of them is blank,
as it starts with the command. -/
theorem ofLines_asking {codes : List Text}
    (hcodes : ∀ code ∈ codes, Text.trim code = code ∧ '\n' ∉ code) :
    ofLines (Text.unlines (codes.map asking))
      = codes.map fun code => ⟨speechCommand, code⟩ := by
  have hlines : ∀ line ∈ codes.map asking, '\n' ∉ line ∧ line.getLast? ≠ some '\r' := by
    rw [List.forall_mem_map]
    intro code hcode
    obtain ⟨htrim, hfeed⟩ := hcodes code hcode
    constructor
    · have hcommand : '\n' ∉ speechCommand ++ [' '] := by decide
      rw [asking, ← List.singleton_append, ← List.append_assoc, List.mem_append]
      exact not_or.mpr ⟨hcommand, hfeed⟩
    · -- A carriage return is a blank, and the last character of the line is none but the
      -- one behind the command.
      intro hlast
      rw [asking, List.getLast?_append_of_ne_nil _ (List.cons_ne_nil _ _)] at hlast
      by_cases hne : code = []
      · rw [hne] at hlast
        revert hlast
        decide
      · rw [List.getLast?_cons_of_ne_nil hne] at hlast
        have hblank := (Text.trim_eq_self_iff.mp htrim).2 '\r' hlast
        revert hblank
        decide
  have hrequests : ∀ code ∈ codes, (ofLine? ∘ asking) code = some ⟨speechCommand, code⟩ :=
    fun code hcode => ofLine?_asking (hcodes code hcode).1
  rw [ofLines, Text.lines_unlines hlines, List.filterMap_map, List.filterMap_congr hrequests,
    List.filterMap_eq_map']

end Request

/-! ### What is printed for a code, and what is answered -/

namespace CommandLine

namespace Announcement

/-- A report of a task is printed, and no notice is given. On the first line is the tier in
brackets, then come the lines of the report, of which the first is the sentence. -/
def PrintsReport (announcement : Announcement) (task : Task) : Prop :=
  ∃ tier : Tier, announcement = .report tier task ∧
    announcement.output = "[".toList ++ tier.name ++ "]\n".toList ++ task.report ++ "\n".toList ∧
    announcement.notice? = none

/-- A line is printed which says that a code is none of the three, and no notice is given. -/
def PrintsInvalidCode (announcement : Announcement) (code : Text) : Prop :=
  announcement.output
      = "Invalid difficulty code ".toList ++ Text.quoted code ++ "; expected 1, 2 or 3\n".toList ∧
    announcement.notice? = none

/-- Nothing is printed, and a notice says that there is no task of a tier, and why. -/
def NotesFailure (announcement : Announcement) : Prop :=
  ∃ (tier : Tier) (fault : Fault), announcement.output = [] ∧
    announcement.notice?
      = some ("Failed to generate a ".toList ++ tier.name ++ " task: ".toList ++ fault.message)

/-- What is printed and noticed for a code matches the response to the request for it. -/
structure Agrees (announcement : Announcement) (response : Response) : Prop where
  /-- The report of a task with a text is printed exactly if the response carries this text. -/
  report : ∀ text, (∃ task, announcement.PrintsReport task ∧ task.text = text) ↔
    response.success = true ∧ response.params = text
  /-- There is a line about the code or a notice exactly if the response is a failure. -/
  refusal : (announcement.PrintsInvalidCode response.params ∨ announcement.NotesFailure) ↔
    response.success = false

/-- The three texts above are what the definitions print. This is the only place where the code
that prints is opened; what follows is about the texts. -/
theorem printsReport_report (tier : Tier) (task : Task) :
    (Announcement.report tier task).PrintsReport task :=
  ⟨tier, rfl, by simp [output, line], rfl⟩

/-- A bad code is told on the output, where the reports are, and not as a notice. -/
theorem printsInvalidCode_invalidCode (code : Text) :
    (Announcement.invalidCode code).PrintsInvalidCode code :=
  ⟨by simp [output, line], rfl⟩

/-- A task that cannot be generated leaves nothing on the output. -/
theorem notesFailure_failure (tier : Tier) (fault : Fault) :
    (Announcement.failure tier fault).NotesFailure :=
  ⟨tier, fault, rfl, rfl⟩

/-- A report starts with a bracket, so it is not the line about a bad code, and it is not
empty, as the output is where a notice is given. -/
theorem Agrees.of_report (tier : Tier) (task : Task) (request : Request) :
    (Announcement.report tier task).Agrees (.succeed request task.text) where
  report text := by
    constructor
    · rintro ⟨_, ⟨_, hsaid, -, -⟩, rfl⟩
      cases hsaid
      exact ⟨rfl, rfl⟩
    · rintro ⟨-, rfl⟩
      exact ⟨task, printsReport_report tier task, rfl⟩
  refusal := by
    have houtput : (Announcement.report tier task).output
        = '[' :: (tier.name ++ [']', '\n'] ++ task.report ++ ['\n']) := by
      simp [output, line]
    constructor
    · rintro (⟨hline, -⟩ | ⟨_, _, hempty, -⟩)
      · rw [houtput] at hline
        exact absurd (List.cons.inj hline).1 (by decide)
      · rw [houtput] at hempty
        exact absurd hempty (List.cons_ne_nil _ _)
    · intro hfailure
      cases hfailure

/-- An announcement that is no report agrees with a failure, if it says why. -/
theorem Agrees.of_refusal {announcement : Announcement} {request : Request}
    (hreport : ∀ tier task, announcement ≠ .report tier task)
    (hrefusal : announcement.PrintsInvalidCode request.params ∨ announcement.NotesFailure) :
    announcement.Agrees (.fail request) where
  report text := by
    constructor
    · rintro ⟨task, ⟨tier, hsaid, -, -⟩, -⟩
      exact absurd hsaid (hreport tier task)
    · rintro ⟨hsuccess, -⟩
      cases hsuccess
  refusal := iff_of_true hrefusal rfl

end Announcement

variable {σ τ : Type} [RandomSource σ] [SharedValue τ]

/-- For one code both sides say the same, and they leave the same source behind. The tier is
looked up first on both sides, and the task of a tier is drawn in the same way. -/
theorem announce_agrees (handler : Handler σ τ) (code : Text) :
    (announce handler.generator code handler.source).1.Agrees
        (handler.handle ⟨Request.speechCommand, code⟩).1 ∧
      (announce handler.generator code handler.source).2
        = (handler.handle ⟨Request.speechCommand, code⟩).2.source := by
  unfold announce Handler.handle
  rw [if_pos rfl]
  cases htier : Tier.ofCode? code with
  | none =>
    rw [handler.generator.outcome_taskForCode_of_none htier]
    exact ⟨.of_refusal nofun (.inl (Announcement.printsInvalidCode_invalidCode code)), rfl⟩
  | some tier =>
    rw [handler.generator.outcome_taskForCode_of_some htier]
    dsimp only
    rcases (handler.generator.task tier).outcome handler.source with ⟨fault | task, later⟩
    · exact ⟨.of_refusal nofun (.inr (Announcement.notesFailure_failure tier fault)), rfl⟩
    · exact ⟨.of_report tier _ _, rfl⟩

/-- About several codes both sides say the same, one by one, and they end with the same source.
The induction is on the codes, for every handler: after one code both sides go on from the
same source with the same generator. -/
theorem announceAll_agrees (handler : Handler σ τ) (codes : List Text) :
    List.Forall₂ Announcement.Agrees (announceAll handler.generator codes handler.source).1
        (handler.handleAll (codes.map fun code => ⟨Request.speechCommand, code⟩)).1 ∧
      (announceAll handler.generator codes handler.source).2
        = (handler.handleAll (codes.map fun code => ⟨Request.speechCommand, code⟩)).2.source := by
  induction codes generalizing handler with
  | nil => exact ⟨.nil, rfl⟩
  | cons code rest ih =>
    obtain ⟨hsaid, hsource⟩ := announce_agrees handler code
    have hgenerator := (handler.handle_answers ⟨Request.speechCommand, code⟩).2
    have hrest := ih (handler.handle ⟨Request.speechCommand, code⟩).2
    rw [hgenerator, ← hsource] at hrest
    exact ⟨.cons hsaid hrest.1, hrest.2⟩

/-- What comes of a run for which a generator was to be made: without one it fails. -/
def Outcome.ofPrepared (outcome : Generator → Outcome) : Except Fault Generator → Outcome
  | .ok generator => outcome generator
  | .error fault => .failed [] fault

/-- Over any storage `generate` comes to the outcome for its codes, with the generator that was
made and the source of this generator. -/
theorem runGenerate_eq {m : Type → Type} [Monad m] [Storage m] (data : Text)
    (config : Option Text) (seed : Option UInt64) (codes : List Text) (entropy : Keystream) :
    (runGenerate data config seed codes entropy : m Outcome)
      = (prepare data config seed >>= fun prepared => pure (Outcome.ofPrepared
          (fun generator => generateOutcome generator codes (sourceOf generator entropy))
          prepared)) := by
  unfold runGenerate
  congr 1
  funext prepared
  cases prepared <;> rfl

/-- Over any storage `serve` comes to the outcome of serving its input, with the generator that
was made, the source of this generator, and no shared value. -/
theorem runServe_eq {m : Type → Type} [Monad m] [Storage m] (data : Text) (config : Option Text)
    (input : Bytes) (entropy : Keystream) :
    (runServe data config input entropy : m Outcome)
      = (prepare data config none >>= fun prepared => pure (Outcome.ofPrepared
          (fun generator => serviceOutcome
            ((Handler.mk generator (sourceOf generator entropy) (none : Option Unit)).serve input))
          prepared)) := by
  unfold runServe
  congr 1
  funext prepared
  cases prepared <;> rfl

/-- Let the codes of a command line have no blanks at their ends and no line breaks, and let a
dialogue start from the same random source, with a line that asks for each of them. The
responses are those of the handler to the requests for the codes, one for each, and what the
program writes when it serves the lines is these responses line by line.

What `generate` prints is the outputs of the announcements, one after another, and its notices
are theirs. Each announcement agrees with the response to the request for its code, and both
sides end with the same random source. The last part says that the two commands come to these
outcomes over any storage, once they have a generator, which they get in the same way. -/
theorem serve_agrees_with_announceAll {m : Type → Type} [Monad m] [Storage m]
    (generator : Generator) (source : σ) (shared : Option τ) {codes : List Text}
    (hcodes : ∀ code ∈ codes, Text.trim code = code ∧ '\n' ∉ code) :
    let said := announceAll generator codes source
    let generated := generateOutcome generator codes source
    let handler := Handler.mk generator source shared
    let responses := (handler.handleAll (codes.map fun code => ⟨Request.speechCommand, code⟩)).1
    let input := Text.encode (Text.unlines (codes.map Request.asking))
    let service := handler.serve input
    (service.output = responses.map Response.render ∧ service.fault = none ∧
      serviceOutcome service = .success ((responses.map Response.render).flatMap line)) ∧
    (generated.output = said.1.flatMap Announcement.output ∧
      generated.notices = said.1.filterMap Announcement.notice? ∧
      generated.code = 0 ∧ generated.failure = none) ∧
    (responses.length = codes.length ∧ List.Forall₂ Announcement.Agrees said.1 responses ∧
      said.2 = service.handler.source) ∧
    ∀ (data : Text) (config : Option Text) (entropy : Keystream),
      (runGenerate data config none codes entropy : m Outcome)
          = (prepare data config none >>= fun prepared => pure (Outcome.ofPrepared
              (fun generator => generateOutcome generator codes (sourceOf generator entropy))
              prepared)) ∧
        (runServe data config input entropy : m Outcome)
          = (prepare data config none >>= fun prepared => pure (Outcome.ofPrepared
              (fun generator => serviceOutcome
                ((Handler.mk generator (sourceOf generator entropy) (none : Option Unit)).serve
                  input)) prepared)) := by
  intro said generated handler responses input service
  obtain ⟨hsaid, hsource⟩ := announceAll_agrees handler codes
  -- The lines are cut and read once; the rest is about requests.
  have hservice : service
      = { output := responses.map Response.render
          fault := none
          handler := (handler.handleAll
            (codes.map fun code => ⟨Request.speechCommand, code⟩)).2 } := by
    show handler.serve _ = _
    rw [Handler.serve_encode, Request.ofLines_asking hcodes]
  have hanswers := handler.handleAll_answers
    (codes.map fun code => ⟨Request.speechCommand, code⟩)
  have hlength : responses.length = codes.length := by
    rw [← hanswers.length_eq, List.length_map]
  rw [hservice]
  exact ⟨⟨rfl, rfl, rfl⟩, ⟨rfl, rfl, rfl, rfl⟩, ⟨hlength, hsaid, hsource⟩,
    fun data config entropy => ⟨runGenerate_eq data config none codes entropy,
      runServe_eq data config input entropy⟩⟩

/-- What a command line with a good code, a bad one, none at all, and one that falls back on a
lower tier prints, and what is answered to the same codes. -/
theorem serve_agrees_with_announceAll_seeker :
    let codes := ["1".toList, "4 x".toList, [], "2".toList]
    let generator := Handler.seeker "Eve".toList
    let handler : Handler Script Unit := Handler.mk generator (Script.ofWords [0]) none
    let responses := (handler.handleAll (codes.map fun code => ⟨Request.speechCommand, code⟩)).1
    (∀ code ∈ codes, Text.trim code = code ∧ '\n' ∉ code) ∧
      List.Forall₂ Announcement.Agrees
        (announceAll generator codes (Script.ofWords [0])).1 responses ∧
      (handler.serve (Text.encode (Text.unlines (codes.map Request.asking)))).output
        = responses.map Response.render ∧
      (generateOutcome generator codes (Script.ofWords [0])).output
        = ("[Easy]\nFind Eve.\n\nEve\n\tgender: Female\n".toList ++
          "Invalid difficulty code \"4 x\"; expected 1, 2 or 3\n".toList ++
          "Invalid difficulty code \"\"; expected 1, 2 or 3\n".toList ++
          "[Moderate]\nFind Eve.\n\nEve\n\tgender: Female\n".toList) ∧
      responses = [⟨Request.speechCommand, "Find Eve.".toList, true⟩,
        ⟨Request.speechCommand, "4 x".toList, false⟩, ⟨Request.speechCommand, [], false⟩,
        ⟨Request.speechCommand, "Find Eve.".toList, true⟩] := by
  intro codes generator handler responses
  have hcodes : ∀ code ∈ codes, Text.trim code = code ∧ '\n' ∉ code := by decide +kernel
  have heasy : Tier.ofCode? "1".toList = some .easy := by decide
  have hbad : Tier.ofCode? "4 x".toList = none := by decide
  have hnone : Tier.ofCode? [] = none := by decide
  have hmoderate : Tier.ofCode? "2".toList = some .moderate := by decide
  have hsaid : (announceAll generator codes (Script.ofWords [0])).1 = [
      .report .easy ⟨[.literal "Find ".toList, ⟨"Eve".toList, ["gender: Female".toList]⟩,
        .literal ".".toList]⟩,
      .invalidCode "4 x".toList, .invalidCode [],
      .report .moderate ⟨[.literal "Find ".toList, ⟨"Eve".toList, ["gender: Female".toList]⟩,
        .literal ".".toList]⟩] := by
    simp only [codes, announceAll, announce, heasy, hbad, hnone, hmoderate, generator,
      Handler.outcome_task_seeker _ (show Tier.easy ≠ .unknown by decide),
      Handler.outcome_task_seeker _ (show Tier.moderate ≠ .unknown by decide)]
  obtain ⟨⟨houtput, -, -⟩, ⟨hprinted, -, -, -⟩, ⟨-, hagrees, -⟩, -⟩ :=
    serve_agrees_with_announceAll (m := StateM FileTree) generator (Script.ofWords [0])
      (none : Option Unit) hcodes
  refine ⟨hcodes, hagrees, houtput, ?_, ?_⟩
  · rw [hprinted, hsaid]
    decide +kernel
  · -- The tasks are replaced one by one before anything is computed: the expansion is by
    -- recursion on what the limit leaves, which does not reduce.
    simp only [responses, codes, List.map_cons, List.map_nil, Handler.handleAll, Handler.handle,
      Handler.publish, if_pos, handler, generator,
      Generator.outcome_taskForCode_of_some _ heasy, Generator.outcome_taskForCode_of_none _ hbad,
      Generator.outcome_taskForCode_of_none _ hnone,
      Generator.outcome_taskForCode_of_some _ hmoderate,
      Handler.outcome_task_seeker _ (show Tier.easy ≠ .unknown by decide),
      Handler.outcome_task_seeker _ (show Tier.moderate ≠ .unknown by decide)]
    decide +kernel

end CommandLine

end TaskGrammar
