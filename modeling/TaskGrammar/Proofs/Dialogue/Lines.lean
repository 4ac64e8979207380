import TaskGrammar.CommandLine.Run
import TaskGrammar.Proofs.Expansion.Characters

/-!
# `TaskGrammar.Proofs.Dialogue.Lines`: one response for each request

Requests come line by line, and each is answered by a line. A client that reads one line for
each request that it has sent stays in step as long as no response holds a line break, and a
response holds the generated sentence as it is. The theorems:

* `serveLines_map_encode`: serving text is answering the requests of its lines in order.
* `handleAll_answers`: the responses belong to the requests, one to one and in order.
* `feed_mem_render_iff`: a response breaks into lines exactly if its sentence does.
* `serve_one_response_per_request`: the output of a dialogue, cut at the feeds, is the list
  of the responses exactly if no sentence has a line break. That is so for entities without
  line breaks in their names.
* `serve_two_lines_for_one_request`: an entity file may bring in a name with a line break,
  and then one request is answered by two lines.
-/

set_option autoImplicit false

namespace TaskGrammar

/-! ### Requests -/

namespace Request

/-- The requests of a text: one for each line that is not blank. -/
def ofLines (input : Text) : List Request :=
  (Text.lines input).filterMap ofLine?

/-- A blank line has no request. -/
theorem ofLine?_of_blank {line : Text} (h : Text.trim line = []) : ofLine? line = none := by
  unfold ofLine?
  rw [if_pos h]

/-- Any other line has one. Its command may be unknown, which is for the handler to find out. -/
theorem exists_ofLine? {line : Text} (h : Text.trim line ≠ []) :
    ∃ request, ofLine? line = some request := by
  unfold ofLine?
  rw [if_neg h]
  exact ⟨_, rfl⟩

/-- There are as many requests as lines with something on them. A line has one request at most, so
the lines with a request are counted. -/
theorem length_ofLines (input : Text) :
    (ofLines input).length
      = ((Text.lines input).filter fun line => decide (Text.trim line ≠ [])).length := by
  unfold ofLines
  rw [List.length_filterMap_eq_countP, List.countP_eq_length_filter]
  refine congrArg List.length (List.filter_congr fun line _ => ?_)
  by_cases h : Text.trim line = []
  · rw [ofLine?_of_blank h]
    simp [h]
  · obtain ⟨request, hrequest⟩ := exists_ofLine? h
    rw [hrequest]
    simp [h]

/-- A request is part of its line. Both its parts are cut out of the line and trimmed, and nothing
is put in. -/
theorem mem_of_ofLine? {line : Text} {request : Request} (h : ofLine? line = some request)
    {c : Char} (hc : c ∈ request.command ∨ c ∈ request.params) : c ∈ line := by
  unfold ofLine? at h
  split at h
  · cases h
  · obtain rfl := Option.some.inj h
    refine Text.mem_of_mem_trim ?_
    rcases hc with hcommand | hparams
    · exact (List.takeWhile_prefix _).subset hcommand
    · exact (List.dropWhile_suffix _).subset (Text.mem_of_mem_trim hparams)

/-- No request has a line break. -/
theorem notMem_of_mem_ofLines {input : Text} {request : Request} (h : request ∈ ofLines input) :
    '\n' ∉ request.command ∧ '\n' ∉ request.params := by
  obtain ⟨line, hline, hrequest⟩ := List.mem_filterMap.mp h
  have hfeed := Text.notMem_of_mem_lines hline
  exact ⟨fun hc => hfeed (mem_of_ofLine? hrequest (.inl hc)),
    fun hc => hfeed (mem_of_ofLine? hrequest (.inr hc))⟩

end Request

/-! ### Responses -/

/-- A response to a request: a sentence of a grammar, if a sentence is asked for, or the
request itself. -/
inductive Generator.Answers (generator : Generator) (request : Request) : Response → Prop
  | sentence {grammar : Grammar} {task : Task} (asked : request.command = Request.speechCommand)
      (mem : grammar ∈ generator.grammars)
      (yields : Yields grammar generator.entities [.reference Grammar.rootId] task.tokens) :
      Answers generator request (.succeed request task.text)
  | refusal : Answers generator request (.fail request)

/-- A response names the command that it was asked with, whether there is a sentence or not. -/
theorem Generator.Answers.command_eq {generator : Generator} {request : Request}
    {response : Response} (h : generator.Answers request response) :
    response.command = request.command := by
  cases h <;> rfl

/-- A response that breaks into lines has a line break in its sentence: the command and the
parameters of a refusal are part of a line. -/
theorem feed_mem_render_iff {generator : Generator} {request : Request} {response : Response}
    (h : generator.Answers request response)
    (hrequest : '\n' ∉ request.command ∧ '\n' ∉ request.params) :
    '\n' ∈ response.render ↔ response.success = true ∧ '\n' ∈ response.params := by
  have hflag : '\n' ∉ ['"', ' '] ++ [if response.success then '1' else '0'] := by
    cases response.success <;> decide
  have hmark : '\n' ∉ [' ', '"'] := by decide
  -- The command is that of the request, and what the line adds has no feed.
  have hrender : '\n' ∈ response.render ↔ '\n' ∈ response.params := by
    unfold Response.render
    rw [List.append_assoc _ ['"', ' '], List.mem_append, List.mem_append, List.mem_append,
      h.command_eq]
    simp only [hrequest.1, hmark, hflag, false_or, or_false]
  rw [hrender]
  cases h with
  | sentence asked mem yields => exact ⟨fun hmem => ⟨rfl, hmem⟩, fun hmem => hmem.2⟩
  | refusal => exact ⟨fun hmem => absurd hmem hrequest.2, fun hmem => hmem.2⟩

/-- Where no template and no entity has a line break, no sentence has one: it is made of literals
of templates and of names. -/
theorem Generator.Answers.notMem_params {generator : Generator}
    (htemplates : ∀ grammar ∈ generator.grammars, grammar.SingleLine)
    (hbuilt : generator.entities.Built) (hentities : generator.entities.SingleLine)
    {request : Request} {response : Response} (h : generator.Answers request response)
    (hsuccess : response.success = true) : '\n' ∉ response.params := by
  cases h with
  | sentence asked mem yields =>
    refine yields.notMem_text (htemplates _ mem) (fun kind token offered => ?_) ?_
    · exact offered.notMem_text hbuilt hentities
    · intro text htext
      cases List.mem_singleton.mp htext
  | refusal => cases hsuccess

/-- A generator is built of what it is given, once the checks are passed. -/
theorem Generator.eq_of_build {grammars : List Grammar} {entities : Entities} {settings : Settings}
    {generator : Generator} (h : build grammars entities settings = .ok generator) :
    generator = { grammars := grammars, entities := entities, settings := settings } := by
  unfold build at h
  split at h
  · cases h
  · split at h
    · cases h
    · exact (Except.ok.inj h).symm

/-- A code that names no tier has no task, and nothing is drawn for it. -/
theorem Generator.outcome_taskForCode_of_none {σ : Type} [RandomSource σ] (generator : Generator)
    {code : Text} (h : Tier.ofCode? code = none) (source : σ) :
    (generator.taskForCode code).outcome source = (.ok none, source) := by
  unfold taskForCode
  rw [h]
  rfl

/-- A code that names a tier has the task of this tier, drawn from the same source. A fault of the
task is the fault of the whole, and the source is where it was then. -/
theorem Generator.outcome_taskForCode_of_some {σ : Type} [RandomSource σ] (generator : Generator)
    {code : Text} {tier : Tier} (h : Tier.ofCode? code = some tier) (source : σ) :
    (generator.taskForCode code).outcome source =
      match (generator.task tier).outcome source with
      | (.ok task, later) => (.ok (some task), later)
      | (.error fault, later) => (.error fault, later) := by
  have hbind : (generator.taskForCode code : Draw σ (Option Task))
      = generator.task tier >>= fun task => pure (some task) := by
    unfold taskForCode
    rw [h]
  rw [hbind, Draw.outcome_bind]
  rcases (generator.task tier).outcome source with ⟨_ | _, later⟩ <;> rfl

/-! ### Dialogues -/

namespace Handler

variable {σ τ : Type} [RandomSource σ] [SharedValue τ]

/-- A request is answered, and the generator stays what it is. A sentence is given only where one
was asked for, and any failure on the way to it is answered by a refusal. -/
theorem handle_answers (handler : Handler σ τ) (request : Request) :
    handler.generator.Answers request (handler.handle request).1 ∧
      (handler.handle request).2.generator = handler.generator := by
  unfold handle
  split
  · rename_i hasked
    split
    · rename_i task later hrun
      have hok : ((handler.generator.taskForCode request.params : Draw σ _).outcome
          handler.source).1 = .ok (some task) := by rw [hrun]
      obtain ⟨grammar, hgrammar, hyields⟩ :=
        (handler.generator.taskForCode_satisfies request.params).result_of_ok trivial hok task rfl
      exact ⟨.sentence hasked hgrammar hyields, rfl⟩
    · exact ⟨.refusal, rfl⟩
    · exact ⟨.refusal, rfl⟩
  · exact ⟨.refusal, rfl⟩

/-- The responses belong to the requests in order. Each request is answered by the handler that
the one before it has left, with the same generator. -/
theorem handleAll_answers (handler : Handler σ τ) (requests : List Request) :
    List.Forall₂ handler.generator.Answers requests (handler.handleAll requests).1 := by
  induction requests generalizing handler with
  | nil => exact .nil
  | cons request rest ih =>
    obtain ⟨hanswers, hgenerator⟩ := handler.handle_answers request
    have hrest := ih (handler.handle request).2
    rw [hgenerator] at hrest
    exact .cons hanswers hrest

/-- At a line that is not UTF-8 serving ends. -/
theorem serveLines_cons_of_undecodable (handler : Handler σ τ) {line : Bytes}
    (h : Text.decode? line = none) (rest : List Bytes) :
    handler.serveLines (line :: rest)
      = { output := [], fault := some (.storage .invalidEncoding), handler := handler } := by
  rw [serveLines, h]

/-- A blank line is passed over. -/
theorem serveLines_cons_of_blank (handler : Handler σ τ) {line : Bytes} {text : Text}
    (h : Text.decode? line = some text) (hblank : Request.ofLine? text = none)
    (rest : List Bytes) : handler.serveLines (line :: rest) = handler.serveLines rest := by
  rw [serveLines, h]
  simp only [hblank]

/-- A request is answered, and serving goes on from where that left the handler. Its response is
written before anything that comes later is read. -/
theorem serveLines_cons_of_request (handler : Handler σ τ) {line : Bytes} {text : Text}
    {request : Request} (h : Text.decode? line = some text)
    (hrequest : Request.ofLine? text = some request) (rest : List Bytes) :
    handler.serveLines (line :: rest)
      = { (handler.handle request).2.serveLines rest with
          output := (handler.handle request).1.render
            :: ((handler.handle request).2.serveLines rest).output } := by
  rw [serveLines, h]
  simp only [hrequest]

/-- Serving the lines of a text answers its requests in order and meets no fault. Blank lines are
passed over in both ways of saying it. -/
theorem serveLines_map_encode (handler : Handler σ τ) (lines : List Text) :
    handler.serveLines (lines.map Text.encode)
      = { output := (handler.handleAll (lines.filterMap Request.ofLine?)).1.map Response.render
          fault := none
          handler := (handler.handleAll (lines.filterMap Request.ofLine?)).2 } := by
  induction lines generalizing handler with
  | nil => rfl
  | cons line rest ih =>
    have htext : Text.decode? (Text.encode line) = some line := Text.decode?_encode line
    rw [List.map_cons, List.filterMap_cons]
    cases hrequest : Request.ofLine? line with
    | none => rw [serveLines_cons_of_blank _ htext hrequest, ih]
    | some request =>
      rw [serveLines_cons_of_request _ htext hrequest, ih]
      rfl

/-- On a text that is encoded, serving is handling the requests of its lines: nothing of it fails
to be decoded, so no fault comes in between. -/
theorem serve_encode (handler : Handler σ τ) (input : Text) :
    handler.serve (Text.encode input)
      = { output := (handler.handleAll (Request.ofLines input)).1.map Response.render
          fault := none
          handler := (handler.handleAll (Request.ofLines input)).2 } := by
  unfold serve
  rw [Text.cutLines_encode]
  exact handler.serveLines_map_encode (Text.lines input)

/-- Each response of a dialogue answers one of its requests. The responses are as many as the
requests, so the position of a response is that of its request. -/
theorem exists_request_of_mem (handler : Handler σ τ) {requests : List Request}
    {response : Response} (h : response ∈ (handler.handleAll requests).1) :
    ∃ request ∈ requests, handler.generator.Answers request response := by
  have hanswers := handler.handleAll_answers requests
  obtain ⟨position, hposition, rfl⟩ := List.mem_iff_getElem.mp h
  have hposition' : position < requests.length := by rwa [hanswers.length_eq]
  exact ⟨requests[position], List.getElem_mem hposition', hanswers.get hposition' hposition⟩

/-- The responses of a dialogue, each on a line of its own, are what stands between the
feeds exactly if no sentence has one. -/
theorem splitOn_responses_iff (handler : Handler σ τ) (input : Text) :
    Text.splitOn '\n' (Text.unlines
        ((handler.handleAll (Request.ofLines input)).1.map Response.render))
          = (handler.handleAll (Request.ofLines input)).1.map Response.render ++ [[]] ↔
      ∀ response ∈ (handler.handleAll (Request.ofLines input)).1,
        response.success = true → '\n' ∉ response.params := by
  rw [Text.splitOn_unlines_iff, List.forall_mem_map]
  refine forall₂_congr fun response hresponse => ?_
  obtain ⟨request, hrequest, hanswer⟩ := handler.exists_request_of_mem hresponse
  rw [feed_mem_render_iff hanswer (Request.notMem_of_mem_ofLines hrequest), not_and]

/-- A dialogue of a generator that is built from grammar files. Whatever the datasets, the
random source and the shared value, the lines of a text are served without a fault, there is
one response for each line that is not blank, and the responses are written in the order of
their requests.

What is written, cut at the feeds, gives these responses back exactly if none of the
sentences has a line break. No sentence has one if no name of an entity has. -/
theorem serve_one_response_per_request {grammars : List Grammar} {entities : Entities}
    {settings : Settings} (handler : Handler σ τ)
    (hgrammars : ∀ grammar ∈ grammars, ∃ name source, Grammar.parse name source = .ok grammar)
    (hentities : entities.Built)
    (hbuild : Generator.build grammars entities settings = .ok handler.generator)
    (input : Text) :
    ∃ responses : List Response,
      (handler.handleAll (Request.ofLines input)).1 = responses ∧
      (handler.serve (Text.encode input)).fault = none ∧
      (handler.serve (Text.encode input)).output = responses.map Response.render ∧
      responses.length
        = ((Text.lines input).filter fun line => decide (Text.trim line ≠ [])).length ∧
      List.Forall₂ handler.generator.Answers (Request.ofLines input) responses ∧
      (Text.splitOn '\n' (Text.unlines (responses.map Response.render))
          = responses.map Response.render ++ [[]] ↔
        ∀ response ∈ responses, response.success = true → '\n' ∉ response.params) ∧
      (entities.SingleLine →
        Text.splitOn '\n' (Text.unlines (responses.map Response.render))
          = responses.map Response.render ++ [[]]) := by
  have hanswers := handler.handleAll_answers (Request.ofLines input)
  have hgenerator := Generator.eq_of_build hbuild
  refine ⟨_, rfl, ?_, ?_, ?_, hanswers, handler.splitOn_responses_iff input,
    fun hsingle => (handler.splitOn_responses_iff input).mpr fun response hresponse hsuccess => ?_⟩
  · rw [serve_encode]
  · rw [serve_encode]
  · rw [← hanswers.length_eq, Request.length_ofLines]
  · -- A sentence has the characters of a grammar from a file, cut into lines, and of names on one
    -- line.
    obtain ⟨request, -, hanswer⟩ := handler.exists_request_of_mem hresponse
    rw [hgenerator] at hanswer
    refine hanswer.notMem_params (fun grammar hgrammar => ?_) hentities hsingle hsuccess
    obtain ⟨name, source, hparse⟩ := hgrammars grammar hgrammar
    exact Grammar.singleLine_of_parse hparse

/-- A generator with one easy grammar, which asks for a name, and a single name. -/
def seeker (name : Text) : Generator :=
  { grammars :=
      [Grammar.ofRules [] .easy
        [{ id := "$Main".toList, replacements := ["Find {name}.".toList] }]]
    entities := Entities.empty.withNames [{ name := name, gender := .female }]
    settings := .standard }

/-- The seeker has one grammar, with one replacement, and one name, so every tier that can be
asked for has the same task: the sentence names the one who is to be found, and the gender is a
remark. -/
theorem outcome_task_seeker (name : Text) {tier : Tier} (htier : tier ≠ .unknown) :
    ((seeker name).task tier : Draw Script Task).outcome (Script.ofWords [0])
      = (.ok ⟨[.literal "Find ".toList, ⟨name, ["gender: Female".toList]⟩,
          .literal ".".toList]⟩, Script.ofWords [0]) := by
  have hscan : Segment.segments "Find {name}.".toList
      = [.literal "Find ".toList, .wildcard ⟨"name".toList, [], true⟩, .literal ".".toList] := by
    decide +kernel
  have hselect : ((seeker name).selectGrammar tier : Draw Script Grammar).outcome
      (Script.ofWords [0]) = (.ok (Grammar.ofRules [] .easy
        [⟨"$Main".toList, ["Find {name}.".toList]⟩]), Script.ofWords [0]) := by
    cases tier with
    | unknown => exact absurd rfl htier
    | easy | moderate | high => with_unfolding_all rfl
  have hroot : (Grammar.ofRules [] .easy [⟨"$Main".toList, ["Find {name}.".toList]⟩]).rule?
      Grammar.rootId = some ⟨Grammar.rootId, ["Find {name}.".toList]⟩ := rfl
  have hname : (Expansion.expandWildcard (seeker name).entities
      ⟨"name".toList, [], true⟩ : Draw Script (List Token)).outcome (Script.ofWords [0])
      = (.ok [⟨name, ["gender: Female".toList]⟩], Script.ofWords [0]) := rfl
  -- What is left to do is computed: one rule, one replacement, one name.
  unfold Generator.task Expansion.task Expansion.taskFrom
  simp only [Draw.outcome_bind, hselect]
  have hlimit : 0 < Settings.standard.maxDepth.toNat := by decide
  rw [Expansion.expandRule_of_lt hroot List.not_mem_nil hlimit]
  simp only [Expansion.chooseReplacement, pure_bind, Expansion.expandChosen, hscan,
    Expansion.expandSegments, Draw.outcome_bind, Generator.expansion, hname, Draw.outcome_pure]
  rfl

/-- The grammar is read from a file. With a name on one line, three lines of which the second
is blank are answered by two lines. -/
theorem serve_one_response_per_request_seeker :
    ∃ responses : List Response, responses.length = 2 ∧
      Text.splitOn '\n' (Text.unlines (responses.map Response.render))
        = responses.map Response.render ++ [[]] ∧
      ((Handler.mk (seeker "Eve".toList) (Script.ofWords [0]) (none : Option Unit)).serve
        (Text.encode "get_speech_cmd 1\n \nhello".toList)).output
        = responses.map Response.render := by
  have hgrammars : ∀ grammar ∈ (seeker "Eve".toList).grammars,
      ∃ name source, Grammar.parse name source = .ok grammar := by
    intro grammar hgrammar
    rw [List.mem_singleton.mp hgrammar]
    exact ⟨[], "; grammar tier Easy\n$Main = Find {name}.".toList, rfl⟩
  have hsingle : (seeker "Eve".toList).entities.SingleLine := by
    constructor
    all_goals decide
  have hbuild : Generator.build (seeker "Eve".toList).grammars (seeker "Eve".toList).entities
      .standard = .ok (seeker "Eve".toList) := rfl
  obtain ⟨responses, -, -, houtput, hlength, -, -, hcut⟩ := serve_one_response_per_request
    (Handler.mk (seeker "Eve".toList) (Script.ofWords [0]) (none : Option Unit)) hgrammars
    (.withNames _ .empty) hbuild "get_speech_cmd 1\n \nhello".toList
  refine ⟨responses, ?_, hcut hsingle, houtput⟩
  rw [hlength]
  decide +kernel

/-- A file of names may have a name on two lines. Then the one request of a dialogue is
answered by two. -/
theorem serve_two_lines_for_one_request :
    ∃ names grammar,
      parseNames "<names><name gender=\"Female\">Eve\nAnn</name></names>".toList = .ok names ∧
      Grammar.parse [] "; grammar tier Easy\n$Main = Find {name}.".toList = .ok grammar ∧
      Generator.build [grammar] (Entities.empty.withNames names) .standard
        = .ok (seeker "Eve\nAnn".toList) ∧
      Request.ofLines "get_speech_cmd 1\n".toList = [⟨Request.speechCommand, "1".toList⟩] ∧
      Text.splitOn '\n' (Text.unlines
        ((Handler.mk (seeker "Eve\nAnn".toList) (Script.ofWords [0]) (none : Option Unit)).serve
          (Text.encode "get_speech_cmd 1\n".toList)).output)
        = ["get_speech_cmd \"Find Eve".toList, "Ann.\" 1".toList, []] := by
  have hnames : parseNames "<names><name gender=\"Female\">Eve\nAnn</name></names>".toList
      = .ok [⟨"Eve\nAnn".toList, .female⟩] := by decide +kernel
  have hrequests : Request.ofLines "get_speech_cmd 1\n".toList
      = [⟨Request.speechCommand, "1".toList⟩] := by decide +kernel
  -- The name is written as it is, feed and all.
  have hcode : ((seeker "Eve\nAnn".toList).taskForCode "1".toList :
      Draw Script (Option Task)).outcome (Script.ofWords [0])
      = (.ok (some ⟨[.literal "Find ".toList, ⟨"Eve\nAnn".toList, ["gender: Female".toList]⟩,
          .literal ".".toList]⟩), Script.ofWords [0]) := by
    have heasy : Tier.ofCode? "1".toList = some .easy := rfl
    rw [Generator.outcome_taskForCode_of_some _ heasy, outcome_task_seeker _ (by decide)]
  refine ⟨_, _, hnames, rfl, rfl, hrequests, ?_⟩
  rw [serve_encode, hrequests]
  simp only [handleAll, handle, if_pos, hcode]
  decide +kernel

end Handler

end TaskGrammar
