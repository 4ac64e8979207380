import TaskGrammar.CommandLine.Run

/-!
# `TaskGrammar.Proofs.Dialogue.SharedValue`: what is written to the shared value

A handler with a shared value takes part in two dialogues at once: it answers requests, and it
writes sentences to a value that others read. How that value behaves is not known. It has a state
of its own, of any type, in which all the reports of later writes may be laid down, successes and
failures in any order. The theorems say that the second dialogue is a copy of the first and that
nothing comes back from it:

* `handle_eq_detached`: one request is answered as without a shared value, and its sentence is
  written, if it has one.
* `handleAll_eq_detached`: the same for requests in order.
* `writeAll_recorded`: a record of what is written does not change what is written.
* `handleAll_mirrors_responses`: the record of a dialogue is the list of the sentences of its
  responses.
-/

set_option autoImplicit false

namespace TaskGrammar

/-- The sentences of responses, in order. A failure has none. -/
def Response.sentences (responses : List Response) : List Text :=
  (responses.filter Response.success).map Response.params

/-- The sentences of more responses come after those of the first ones. -/
theorem Response.sentences_append (responses more : List Response) :
    sentences (responses ++ more) = sentences responses ++ sentences more := by
  unfold sentences
  rw [List.filter_append, List.map_append]

namespace SharedValue

variable {τ : Type} [SharedValue τ]

/-- A shared value after texts have been written to it, whatever the writes report. -/
def writeAll (value : τ) (texts : List Text) : τ :=
  texts.foldl (fun value text => (write text value).2) value

/-- Texts in two parts are written one part after the other. The second part meets the value as
the first one left it, which is all that the value remembers of it. -/
theorem writeAll_append (value : τ) (texts more : List Text) :
    writeAll value (texts ++ more) = writeAll (writeAll value texts) more :=
  List.foldl_append

end SharedValue

/-- A shared value with a record of the texts that have been written to it, each as often as it
was written. -/
structure Recorded (τ : Type) where
  value : τ
  record : List Text

/-- A write goes to the value, which decides what it reports, and into the record. -/
instance {τ : Type} [SharedValue τ] : SharedValue (Recorded τ) where
  write text recorded :=
    ((SharedValue.write text recorded.value).1,
      { value := (SharedValue.write text recorded.value).2
        record := recorded.record ++ [text] })

/-- With a record the value is written to as without one. What the writes report is the value's
own, so the record cannot make a difference by that either. -/
theorem SharedValue.writeAll_recorded {τ : Type} [SharedValue τ] (recorded : Recorded τ)
    (texts : List Text) :
    writeAll recorded texts
      = { value := writeAll recorded.value texts, record := recorded.record ++ texts } := by
  induction texts generalizing recorded with
  | nil => rw [List.append_nil]; rfl
  | cons text texts ih =>
    show writeAll (write text recorded).2 texts = _
    rw [ih, List.append_cons]
    rfl

namespace Handler

variable {σ τ : Type} [SharedValue τ]

/-- The handler without its shared value. -/
def detached (handler : Handler σ τ) : Handler σ Unit :=
  { generator := handler.generator, source := handler.source, shared := none }

/-- The handler once the random source has moved on, and the sentences of some responses have been
written to the shared value. -/
def mirroring (handler : Handler σ τ) (later : σ) (responses : List Response) : Handler σ τ :=
  { generator := handler.generator
    source := later
    shared := handler.shared.map fun value =>
      SharedValue.writeAll value (Response.sentences responses) }

/-- Where no response has a sentence, nothing is written. -/
theorem mirroring_of_sentences_eq_nil (handler : Handler σ τ) (later : σ)
    {responses : List Response} (h : Response.sentences responses = []) :
    handler.mirroring later responses = { handler with source := later } := by
  have hkept : (handler.shared.map fun value => SharedValue.writeAll value []) = handler.shared :=
    Option.map_id'
  unfold mirroring
  rw [h, hkept]

/-- What is written for responses and then for more is what is written for all of them. The
sources of the two steps do not matter, as only the last one is left. -/
theorem mirroring_mirroring (handler : Handler σ τ) (later latest : σ)
    (responses more : List Response) :
    (handler.mirroring later responses).mirroring latest more
      = handler.mirroring latest (responses ++ more) := by
  unfold mirroring
  rw [Option.map_map, Response.sentences_append]
  congr 2
  funext value
  exact (SharedValue.writeAll_append value _ _).symm

variable [RandomSource σ]

/-- A request is answered as without a shared value. To the shared value its sentence is written,
and nothing if it fails: for another command, for a code that names no tier, and where no
sentence comes about. -/
theorem handle_eq_detached (handler : Handler σ τ) (request : Request) :
    handler.handle request
      = ((handler.detached.handle request).1,
          handler.mirroring (handler.detached.handle request).2.source
            [(handler.detached.handle request).1]) := by
  have hfail : ∀ later : σ,
      handler.mirroring later [.fail request] = { handler with source := later } := fun later =>
    handler.mirroring_of_sentences_eq_nil later rfl
  unfold handle detached
  by_cases hasked : request.command = Request.speechCommand
  · simp only [if_pos hasked]
    -- A fault, a code that names no tier, and a task: only the last one is published.
    rcases (handler.generator.taskForCode request.params).outcome handler.source with
      ⟨_ | _ | task, later⟩
    · rw [hfail]
    · rw [hfail]
    · rfl
  · simp only [if_neg hasked]
    rw [hfail]

/-- A handler is left by a request, but for its shared value, as the one without it is. -/
theorem detached_handle (handler : Handler σ τ) (request : Request) :
    (handler.handle request).2.detached = (handler.detached.handle request).2 := by
  rw [handler.handle_eq_detached, handler.detached.handle_eq_detached]
  rfl

/-- Requests are answered as without a shared value, and their sentences are written to it in
order. -/
theorem handleAll_eq_detached (handler : Handler σ τ) (requests : List Request) :
    handler.handleAll requests
      = ((handler.detached.handleAll requests).1,
          handler.mirroring (handler.detached.handleAll requests).2.source
            (handler.detached.handleAll requests).1) := by
  induction requests generalizing handler with
  | nil =>
    rw [handleAll, handleAll, handler.mirroring_of_sentences_eq_nil _ rfl]
    rfl
  | cons request rest ih =>
    -- Without the shared value the rest is answered from the same handler.
    rw [handleAll, handleAll, ih, detached_handle, handler.handle_eq_detached,
      mirroring_mirroring]
    rfl

/-- A dialogue with a shared value, from any generator and any random source. However the value
behaves and whatever its writes report, the responses and the random source after them are those
of the dialogue without a shared value. The record of what has been written is the list of the
sentences of the responses, in order: one text for each success, which is its parameters, and
none for a failure. To keep the record changes nothing in the value. -/
theorem handleAll_mirrors_responses (generator : Generator) (source : σ) (value : τ)
    (requests : List Request) :
    ∃ (responses : List Response) (later : σ) (left : τ),
      (Handler.mk generator source (none : Option Unit)).handleAll requests
          = (responses, { generator := generator, source := later, shared := none }) ∧
        (Handler.mk generator source (some value)).handleAll requests
          = (responses, { generator := generator, source := later, shared := some left }) ∧
        (Handler.mk generator source (some (Recorded.mk value []))).handleAll requests
          = (responses, {
              generator := generator
              source := later
              shared := some
                { value := left
                  record := (responses.filter Response.success).map Response.params } }) := by
  let alone : List Response × Handler σ Unit :=
    (Handler.mk generator source none).handleAll requests
  refine ⟨alone.1, alone.2.source, SharedValue.writeAll value (Response.sentences alone.1),
    ?_, ?_, ?_⟩
  · exact handleAll_eq_detached _ requests
  · exact handleAll_eq_detached _ requests
  · -- The record is part of a shared value of its own, so this is the same equation again.
    have hrecord := SharedValue.writeAll_recorded (Recorded.mk value [])
      (Response.sentences alone.1)
    rw [handleAll_eq_detached]
    exact congrArg (fun left => (alone.1, Handler.mk generator alone.2.source (some left))) hrecord

end Handler

end TaskGrammar
