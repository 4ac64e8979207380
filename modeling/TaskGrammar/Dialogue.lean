import TaskGrammar.Generator

/-!
# `TaskGrammar.Dialogue`: requests and responses

A request is a line with a command and its parameters. The one command that is
served is `get_speech_cmd`, whose parameter is a code for a tier. A response line
repeats the command and gives, between quotes, the generated sentence and `1`, or
the parameters of the request and `0`.

A generated sentence is also written to a shared value, if one is attached. Whether
that succeeds changes nothing in the dialogue.

* `Handler.handle` answers one request, `Handler.handleAll` several in order.
* `Handler.serve` answers the requests of a stream of bytes, up to the first line
  that is not UTF-8.
-/

set_option autoImplicit false

namespace TaskGrammar

/-- A request: a command and its parameters. -/
structure Request where
  command : Text
  params : Text
  deriving DecidableEq, Repr

namespace Request

/-- The command that asks for a sentence. -/
def speechCommand : Text :=
  "get_speech_cmd".toList

/-- The request on a line: the text up to the first blank, and the trimmed rest. A
blank line has none. -/
def ofLine? (line : Text) : Option Request :=
  if Text.trim line = [] then none
  else
    some {
      command := (Text.trim line).takeWhile fun c => !Text.isBlank c
      params := Text.trim ((Text.trim line).dropWhile fun c => !Text.isBlank c) }

end Request

/-- An answer to a request. -/
structure Response where
  command : Text
  params : Text
  success : Bool
  deriving DecidableEq, Repr

namespace Response

/-- The answer that carries a sentence. -/
def succeed (request : Request) (sentence : Text) : Response :=
  { command := request.command, params := sentence, success := true }

/-- The answer that gives the request back. -/
def fail (request : Request) : Response :=
  { command := request.command, params := request.params, success := false }

/-- The answer as a line, without its end. -/
def render (response : Response) : Text :=
  response.command ++ [' ', '"'] ++ response.params ++ ['"', ' '] ++
    [if response.success then '1' else '0']

end Response

/-- A value outside of the dialogue to which sentences are written. A write tells
whether it succeeded. -/
class SharedValue (τ : Type) where
  write : Text → τ → Bool × τ

/-- What answers requests: a generator, the state of its random source, and the
shared value, if one is attached. -/
structure Handler (σ τ : Type) where
  generator : Generator
  source : σ
  shared : Option τ

namespace Handler

variable {σ τ : Type} [RandomSource σ] [SharedValue τ]

/-- Writes a sentence to the shared value, if one is attached. -/
def publish (handler : Handler σ τ) (sentence : Text) : Handler σ τ :=
  { handler with shared := handler.shared.map fun value => (SharedValue.write sentence value).2 }

/-- Answers a request, and goes on with the random source where the answer left it. -/
def handle (handler : Handler σ τ) (request : Request) : Response × Handler σ τ :=
  if request.command = Request.speechCommand then
    match (handler.generator.taskForCode request.params).outcome handler.source with
    | (.ok (some task), source) =>
      (.succeed request task.text, { handler with source := source }.publish task.text)
    | (.ok none, source) => (.fail request, { handler with source := source })
    | (.error _, source) => (.fail request, { handler with source := source })
  else
    (.fail request, handler)

/-- Answers requests in order. -/
def handleAll (handler : Handler σ τ) : List Request → List Response × Handler σ τ
  | [] => ([], handler)
  | request :: rest =>
    let first := handler.handle request
    let others := first.2.handleAll rest
    (first.1 :: others.1, others.2)

/-- What serving a stream comes to: the lines written, the fault that ended it, and
the handler after it. -/
structure Service (σ τ : Type) where
  output : List Text
  fault : Option Fault
  handler : Handler σ τ

/-- Answers the requests of some lines, up to one that is not UTF-8. -/
def serveLines (handler : Handler σ τ) : List Bytes → Service σ τ
  | [] => { output := [], fault := none, handler := handler }
  | line :: rest =>
    match Text.decode? line with
    | none => { output := [], fault := some (.storage .invalidEncoding), handler := handler }
    | some text =>
      match Request.ofLine? text with
      | none => handler.serveLines rest
      | some request =>
        let first := handler.handle request
        let others := first.2.serveLines rest
        { others with output := first.1.render :: others.output }

/-- Answers the requests of a stream. -/
def serve (handler : Handler σ τ) (input : Bytes) : Service σ τ :=
  handler.serveLines (Text.cutLines 13 10 input)

end Handler

end TaskGrammar
