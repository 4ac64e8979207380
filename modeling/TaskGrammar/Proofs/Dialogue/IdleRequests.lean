import TaskGrammar.Proofs.Dialogue.Lines
import TaskGrammar.Proofs.Dialogue.ReadBack

/-!
# `TaskGrammar.Proofs.Dialogue.IdleRequests`: requests that leave no trace

A request for another command, or with a code that is none of the three, cannot be answered by
a task. It is given back as it is, and nothing is drawn or published for it. So such requests,
and blank lines, can be put between the lines of any stream without a trace in the answers to
the rest. The theorems:

* `handle_of_isIdle`: an idle request is given back and leaves the handler alone.
* `serveLines_of_pieces`: a stream with lines put into it, answered piece by piece.
* `serve_unchanged_by_idle_lines`: the same for the bytes of two streams.
* `idle_line_unanswered`: behind a line that is not UTF-8 nothing is answered, whoever asks.
-/

set_option autoImplicit false

namespace TaskGrammar

/-! ### Idle requests -/

/-- A code names no tier exactly if it is none of the three. No blank around it is forgiven and no
zero in front. -/
theorem Tier.ofCode?_eq_none_iff {code : Text} :
    ofCode? code = none ↔ code ∉ ["1".toList, "2".toList, "3".toList] := by
  unfold ofCode?
  split
  · simp_all
  · split
    · simp_all
    · split
      · simp_all
      · simp_all

namespace Request

/-- A request that asks for no task: it has another command, or its parameters are none of the
three codes. -/
def IsIdle (request : Request) : Prop :=
  request.command ≠ speechCommand ∨ request.params ∉ ["1".toList, "2".toList, "3".toList]

instance (request : Request) : Decidable request.IsIdle :=
  inferInstanceAs (Decidable (_ ∨ _))

/-- A line that asks for no task: it is blank, or its request is idle. -/
def IsIdleLine (line : Text) : Prop :=
  ∀ request ∈ ofLine? line, request.IsIdle

end Request

namespace Handler

variable {σ τ : Type} [RandomSource σ] [SharedValue τ]

/-- An idle request is given back. Neither the random source nor the shared value moves, so the
handler is the same and not just one like it. -/
theorem handle_of_isIdle (handler : Handler σ τ) {request : Request} (h : request.IsIdle) :
    handler.handle request = (.fail request, handler) := by
  unfold handle
  split
  · rename_i hasked
    -- The command is right, so it is the code that names no tier.
    have hcode := Tier.ofCode?_eq_none_iff.mpr (h.resolve_left fun hne => hne hasked)
    rw [handler.generator.outcome_taskForCode_of_none hcode]
  · rfl

end Handler

/-! ### Streams with lines put into them -/

/-- A line of a stream: one that was there, or one that was put in. -/
inductive Piece
  | given (line : Bytes)
  | added (line : Text)
  deriving DecidableEq

namespace Piece

/-- The line as it stands in the stream. -/
def bytes : Piece → Bytes
  | given line => line
  | added line => Text.encode line

/-- The line, if it was there before. -/
def given? : Piece → Option Bytes
  | given line => some line
  | added _ => none

/-- Whether the line was there before. -/
def isGiven (piece : Piece) : Bool :=
  piece.given?.isSome

/-- The text of the line, if it is UTF-8. -/
def text? : Piece → Option Text
  | given line => Text.decode? line
  | added line => some line

/-- The line as it is read from the stream. A carriage return at its end is lost if a feed has
come to stand behind it. -/
def StandsAs (piece : Piece) (line : Bytes) : Prop :=
  piece.bytes = line ∨ piece.bytes = line ++ [13]

/-- The request of the line, if it has one. -/
def request? (piece : Piece) : Option Request :=
  piece.text?.bind Request.ofLine?

/-- The lines with a request that are read: serving ends at the first line that is not UTF-8. -/
def asking (pieces : List Piece) : List Piece :=
  (pieces.takeWhile fun piece => piece.text?.isSome).filter fun piece => piece.request?.isSome

/-- Nothing is read from a line on that is not UTF-8. -/
theorem asking_cons_of_undecodable {piece : Piece} (h : piece.text? = none) (rest : List Piece) :
    asking (piece :: rest) = [] := by
  simp [asking, h]

/-- A blank line asks for nothing, and the lines after it are read. -/
theorem asking_cons_of_blank {piece : Piece} {text : Text} (h : piece.text? = some text)
    (hblank : Request.ofLine? text = none) (rest : List Piece) :
    asking (piece :: rest) = asking rest := by
  simp [asking, request?, h, hblank]

/-- A line with a request asks, and the lines after it are read as well. -/
theorem asking_cons_of_request {piece : Piece} {text : Text} {request : Request}
    (h : piece.text? = some text) (hrequest : Request.ofLine? text = some request)
    (rest : List Piece) : asking (piece :: rest) = piece :: asking rest := by
  simp [asking, request?, h, hrequest]

end Piece

/-- What a stream is answered, piece by piece, once lines have been put into it. The stream
before it is answered in the same way, and leaves the same handler behind. -/
structure Handler.Unchanged {σ τ : Type} (pieces : List Piece)
    (answers : List (Piece × Response)) (before after : Service σ τ) : Prop where
  /-- Each line with a request has one answer, in the order of the lines. -/
  asked : answers.map Prod.fst = Piece.asking pieces
  /-- The answers are what is written. -/
  written : after.output = answers.map fun answer => answer.2.render
  /-- Without the answers to the lines that were put in, this is what was written before. -/
  kept : before.output
    = (answers.filter fun answer => answer.1.isGiven).map fun answer => answer.2.render
  /-- A line that was put in is given back as a failure. -/
  echoed : ∀ line response, (Piece.added line, response) ∈ answers →
    ∃ request, Request.ofLine? line = some request ∧ response = .fail request
  fault : after.fault = before.fault
  /-- The generator, the random source and the shared value are left as before. -/
  handler : after.handler = before.handler

namespace Handler.Unchanged

variable {σ τ : Type} {pieces : List Piece} {answers : List (Piece × Response)}
  {before after : Handler.Service σ τ}

/-- A stream that is answered by nothing, whatever is behind its first line. -/
theorem ofSilent (service : Handler.Service σ τ) (houtput : service.output = [])
    (hasking : Piece.asking pieces = []) : Handler.Unchanged pieces [] service service where
  asked := hasking.symm
  written := houtput
  kept := houtput
  echoed := nofun
  fault := rfl
  handler := rfl

/-- A blank line is not answered. -/
theorem blank (h : Handler.Unchanged pieces answers before after) {piece : Piece} {text : Text}
    (htext : piece.text? = some text) (hblank : Request.ofLine? text = none) :
    Handler.Unchanged (piece :: pieces) answers before after :=
  { h with asked := h.asked.trans (Piece.asking_cons_of_blank htext hblank pieces).symm }

/-- A request that was there has the same answer in both streams, and the two answers are written
at the same place among those to such requests. -/
theorem given (h : Handler.Unchanged pieces answers before after) {line : Bytes} {text : Text}
    {request : Request} (htext : Text.decode? line = some text)
    (hrequest : Request.ofLine? text = some request) (response : Response) :
    Handler.Unchanged (.given line :: pieces) ((.given line, response) :: answers)
      { before with output := response.render :: before.output }
      { after with output := response.render :: after.output } where
  asked := by
    have htext' : (Piece.given line).text? = some text := htext
    rw [List.map_cons, h.asked, Piece.asking_cons_of_request htext' hrequest]
  written := by rw [List.map_cons, h.written]
  kept := by rw [List.filter_cons_of_pos rfl, List.map_cons, h.kept]
  echoed := by
    intro other response' hmem
    rcases List.mem_cons.mp hmem with heq | hmem
    · cases heq
    · exact h.echoed other response' hmem
  fault := h.fault
  handler := h.handler

/-- A request that was put in has an answer of its own, which gives it back. It is an answer more
in the one stream and none in the other, and the handlers stay what they are. -/
theorem added (h : Handler.Unchanged pieces answers before after) {line : Text}
    {request : Request} (hrequest : Request.ofLine? line = some request) :
    Handler.Unchanged (.added line :: pieces) ((.added line, .fail request) :: answers) before
      { after with output := (Response.fail request).render :: after.output } where
  asked := by rw [List.map_cons, h.asked, Piece.asking_cons_of_request rfl hrequest]
  written := by rw [List.map_cons, h.written]
  kept := by
    rw [List.filter_cons_of_neg (by simp [Piece.isGiven, Piece.given?])]
    exact h.kept
  echoed := by
    intro other response hmem
    rcases List.mem_cons.mp hmem with heq | hmem
    · cases heq
      exact ⟨request, hrequest, rfl⟩
    · exact h.echoed other response hmem
  fault := h.fault
  handler := h.handler

end Handler.Unchanged

/-- A carriage return at the end of a line is a blank and changes no request. So it is no matter
that a line loses it when it gets a feed behind it. -/
theorem Piece.StandsAs.map_ofLine? {piece : Piece} {line : Bytes} (h : piece.StandsAs line) :
    (Text.decode? line).map Request.ofLine?
      = (Text.decode? piece.bytes).map Request.ofLine? := by
  rcases h with h | h
  · rw [h]
  · rw [h, Text.decode?_concat_carriage, Option.map_map]
    cases Text.decode? line with
    | none => rfl
    | some text =>
      have hreturn : Request.ofLine? ([] ++ text ++ ['\r']) = Request.ofLine? text :=
        Request.ofLine?_surrounded rfl (by decide) text
      exact congrArg some hreturn.symm

namespace Handler

variable {σ τ : Type} [RandomSource σ] [SharedValue τ]

/-- Lines that are read alike are served alike: a line ends the dialogue, is blank, or has a
request. There is one case for each, the same on both sides. -/
theorem serveLines_congr (handler : Handler σ τ) {lines lines' : List Bytes}
    (h : List.Forall₂ (fun line line' => (Text.decode? line).map Request.ofLine?
      = (Text.decode? line').map Request.ofLine?) lines lines') :
    handler.serveLines lines = handler.serveLines lines' := by
  induction h generalizing handler with
  | nil => rfl
  | @cons line line' rest rest' hline _ ih =>
    cases htext : Text.decode? line with
    | none =>
      rw [htext, Option.map_none, eq_comm, Option.map_eq_none_iff] at hline
      rw [serveLines_cons_of_undecodable _ htext, serveLines_cons_of_undecodable _ hline]
    | some text =>
      rw [htext, Option.map_some, eq_comm, Option.map_eq_some_iff] at hline
      obtain ⟨text', htext', hrequests⟩ := hline
      cases hrequest : Request.ofLine? text with
      | none =>
        rw [hrequest] at hrequests
        rw [serveLines_cons_of_blank _ htext hrequest, ih,
          serveLines_cons_of_blank _ htext' hrequests]
      | some request =>
        rw [hrequest] at hrequests
        rw [serveLines_cons_of_request _ htext hrequest, ih,
          serveLines_cons_of_request _ htext' hrequests]

/-- Idle lines in a stream are answered by themselves and change nothing else. The induction
is on the lines, for every handler: a line that was there takes both streams on to the same
handler, and a line that was put in leaves the handler as it is. -/
theorem serveLines_of_pieces (handler : Handler σ τ) (pieces : List Piece)
    (hidle : ∀ line, Piece.added line ∈ pieces → Request.IsIdleLine line) :
    ∃ answers, Unchanged pieces answers (handler.serveLines (pieces.filterMap Piece.given?))
      (handler.serveLines (pieces.map Piece.bytes)) := by
  induction pieces generalizing handler with
  | nil => exact ⟨[], .ofSilent _ rfl rfl⟩
  | cons piece rest ih =>
    have hrest : ∀ line, Piece.added line ∈ rest → Request.IsIdleLine line :=
      fun line hline => hidle line (List.mem_cons_of_mem _ hline)
    cases piece with
    | given line =>
      show ∃ answers, Unchanged _ answers
        (handler.serveLines (line :: rest.filterMap Piece.given?))
        (handler.serveLines (line :: rest.map Piece.bytes))
      cases htext : Text.decode? line with
      | none =>
        -- Both streams end here, and with them the answers.
        have htext' : (Piece.given line).text? = none := htext
        simp only [serveLines_cons_of_undecodable _ htext]
        exact ⟨[], .ofSilent _ rfl (Piece.asking_cons_of_undecodable htext' rest)⟩
      | some text =>
        cases hrequest : Request.ofLine? text with
        | none =>
          simp only [serveLines_cons_of_blank _ htext hrequest]
          obtain ⟨answers, h⟩ := ih handler hrest
          exact ⟨answers, h.blank htext hrequest⟩
        | some request =>
          simp only [serveLines_cons_of_request _ htext hrequest]
          obtain ⟨answers, h⟩ := ih (handler.handle request).2 hrest
          exact ⟨_, h.given htext hrequest (handler.handle request).1⟩
    | added line =>
      show ∃ answers, Unchanged _ answers (handler.serveLines (rest.filterMap Piece.given?))
        (handler.serveLines (Text.encode line :: rest.map Piece.bytes))
      have htext : Text.decode? (Text.encode line) = some line := Text.decode?_encode line
      obtain ⟨answers, h⟩ := ih handler hrest
      cases hrequest : Request.ofLine? line with
      | none =>
        rw [serveLines_cons_of_blank _ htext hrequest]
        exact ⟨answers, h.blank rfl hrequest⟩
      | some request =>
        have hask := hidle line List.mem_cons_self request hrequest
        rw [serveLines_cons_of_request _ htext hrequest, handler.handle_of_isIdle hask]
        exact ⟨_, h.added hrequest⟩

/-- Let one stream have the lines of another and, anywhere between them, lines that ask for no
task. From the same handler both streams are served alike: they end with the same fault or
with none, and leave the same random source and the same shared value behind. The answers of
the one stream without those to the lines that were put in are the answers of the other, in
order. As long as lines are read, each line that was put in and is not blank is given back as
one failure. -/
theorem serve_unchanged_by_idle_lines (handler : Handler σ τ) {input extended : Bytes}
    (pieces : List Piece)
    (hinput : Text.cutLines 13 10 input = pieces.filterMap Piece.given?)
    (hextended : List.Forall₂ Piece.StandsAs pieces (Text.cutLines 13 10 extended))
    (hidle : ∀ line, Piece.added line ∈ pieces → Request.IsIdleLine line) :
    ∃ answers, Unchanged pieces answers (handler.serve input) (handler.serve extended) := by
  have hread : List.Forall₂ (fun line line' => (Text.decode? line).map Request.ofLine?
      = (Text.decode? line').map Request.ofLine?) (Text.cutLines 13 10 extended)
      (pieces.map Piece.bytes) := by
    rw [List.forall₂_map_right_iff]
    exact hextended.flip.imp fun _ _ hstands => Piece.StandsAs.map_ofLine? hstands
  unfold serve
  rw [hinput, handler.serveLines_congr hread]
  exact handler.serveLines_of_pieces pieces hidle

/-- A request for a sentence among lines that ask for none: another command, blanks, and a code
that is no tier. The line of the request had no feed, and now it has one. -/
theorem serve_unchanged_by_idle_lines_seeker :
    ∃ answers, Unchanged
      [.added "hello 1".toList, .given (Text.encode "get_speech_cmd 1\r".toList),
        .added "  ".toList, .added "get_speech_cmd 4".toList] answers
      ((Handler.mk (seeker "Eve".toList) (Script.ofWords [0]) (none : Option Unit)).serve
        (Text.encode "get_speech_cmd 1\r".toList))
      ((Handler.mk (seeker "Eve".toList) (Script.ofWords [0]) (none : Option Unit)).serve
        (Text.encode "hello 1\nget_speech_cmd 1\r\n  \nget_speech_cmd 4\n".toList)) := by
  -- The return stays with its line until the feed behind it takes it away.
  have hcut : Text.cutLines 13 10
      (Text.encode "hello 1\nget_speech_cmd 1\r\n  \nget_speech_cmd 4\n".toList)
      = [Text.encode "hello 1".toList, Text.encode "get_speech_cmd 1".toList,
        Text.encode "  ".toList, Text.encode "get_speech_cmd 4".toList] := by
    rw [Text.cutLines_encode]
    decide +kernel
  refine serve_unchanged_by_idle_lines _
    [.added "hello 1".toList, .given (Text.encode "get_speech_cmd 1\r".toList),
      .added "  ".toList, .added "get_speech_cmd 4".toList] ?_ ?_ ?_
  · rw [Text.cutLines_encode]
    decide +kernel
  · rw [hcut]
    exact .cons (.inl rfl) (.cons (.inr rfl) (.cons (.inl rfl) (.cons (.inl rfl) .nil)))
  · intro line hline
    have hline' : line ∈ ["hello 1".toList, "  ".toList, "get_speech_cmd 4".toList] := by
      simpa using hline
    have hall : ∀ line ∈ ["hello 1".toList, "  ".toList, "get_speech_cmd 4".toList],
        ∀ request ∈ Request.ofLine? line, request.IsIdle := by
      decide +kernel
    exact hall line hline'

/-- Behind a line that is not UTF-8 a request is not given back: nothing is read any more. -/
theorem idle_line_unanswered :
    Text.cutLines 13 10 ([255, 10] : Bytes)
        = [.given [255], .added "hello".toList].filterMap Piece.given? ∧
      List.Forall₂ Piece.StandsAs [.given [255], .added "hello".toList]
        (Text.cutLines 13 10 ([255, 10] ++ Text.encode "hello\n".toList)) ∧
      Request.ofLine? "hello".toList = some ⟨"hello".toList, []⟩ ∧
      Request.IsIdle ⟨"hello".toList, []⟩ ∧
      ((Handler.mk (seeker "Eve".toList) (Script.ofWords [0]) (none : Option Unit)).serve
        ([255, 10] ++ Text.encode "hello\n".toList)).output = [] := by
  have hcut : Text.cutLines 13 10 ([255, 10] ++ Text.encode "hello\n".toList)
      = [[255], Text.encode "hello".toList] := by decide +kernel
  have hundecodable : Text.decode? [255] = none := by decide +kernel
  refine ⟨by decide +kernel, ?_, by decide +kernel, by decide +kernel, ?_⟩
  · rw [hcut]
    exact .cons (.inl rfl) (.cons (.inl rfl) .nil)
  · unfold serve
    rw [hcut, serveLines_cons_of_undecodable _ hundecodable]

end Handler

end TaskGrammar
