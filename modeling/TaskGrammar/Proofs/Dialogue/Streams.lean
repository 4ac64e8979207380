import TaskGrammar.Proofs.Dialogue.Lines

/-!
# `TaskGrammar.Proofs.Dialogue.Streams`: serving a stream part by part

A stream is bytes. Where a line ends is seen on the bytes, and each line is decoded by itself, so
one that is not UTF-8 spoils nothing of what is before it. A program that hands over the lines as
they come in and keeps the handler between them serves the stream as a whole. The theorems:

* `serve_append`: behind the end of a line serving goes on as a service of its own, unless a
  fault has ended it.
* `exists_breaksAt`: a stream with a line that is not UTF-8 breaks at the first such line.
* `serve_of_breaksAt`: such a stream is answered up to there, and the handler is left as the
  requests up to there leave it.
* `serve_is_stream`: both together.
-/

set_option autoImplicit false

namespace TaskGrammar

/-! ### Where a stream breaks -/

/-- A stream with a first line that is not UTF-8. -/
structure BreaksAt (input : Bytes) (before : Text) (line after : Bytes) : Prop where
  parts : input = Text.encode before ++ (line ++ after)
  /-- What is before the line is whole lines. -/
  before_ends : Text.EndsLine '\n' before
  line_feed : 10 ∉ line
  undecodable : Text.decode? line = none
  /-- The line goes up to a feed, or to the end. -/
  after_feed : after = [] ∨ ∃ rest, after = 10 :: rest

namespace BreaksAt

variable {input : Bytes} {before : Text} {line after : Bytes}

/-- Whole lines in front of the stream are in front of the place where it breaks. -/
theorem cons (h : BreaksAt input before line after) (front : Text) :
    BreaksAt (Text.encode front ++ 10 :: input) (front ++ '\n' :: before) line after :=
  { h with
    parts := by
      have hfeed : Text.encode ('\n' :: before) = 10 :: Text.encode before := rfl
      rw [h.parts, Text.encode_append, hfeed, List.append_assoc, List.cons_append]
    before_ends := Text.endsLine_append_feed_iff.mpr h.before_ends }

/-- The line is cut as one that is not UTF-8, whether or not it loses a carriage return. -/
theorem cutLines_line (h : BreaksAt input before line after) :
    ∃ front rest, Text.cutLines 13 10 (line ++ after) = front :: rest ∧
      Text.decode? front = none := by
  rcases h.after_feed with rfl | ⟨rest, rfl⟩
  · -- The last line has no feed. It is not empty, since the empty line is UTF-8.
    have hne : line ≠ [] := by
      rintro rfl
      exact absurd h.undecodable (by decide +kernel)
    rw [List.append_nil, Text.cutLines_of_notMem hne h.line_feed]
    exact ⟨line, [], rfl, h.undecodable⟩
  · obtain ⟨front, hfront, hcut⟩ :=
      Text.exists_cutLines_append_feed (show (13 : UInt8) ≠ 10 by decide) h.line_feed
    refine ⟨front, _, hcut rest, ?_⟩
    have hundecodable := h.undecodable
    rcases hfront with rfl | rfl
    · exact hundecodable
    · rwa [Text.decode?_concat_carriage, Option.map_eq_none_iff] at hundecodable

end BreaksAt

/-- A stream that is not UTF-8 has a first line that is not. The induction is on its lines: those
that are UTF-8 come to stand before the break. -/
theorem exists_breaksAt {input : Bytes} (h : Text.decode? input = none) :
    ∃ before line after, BreaksAt input before line after := by
  induction input using Text.pieces_induction (10 : UInt8) with
  | last piece hpiece =>
    exact ⟨[], piece, [], (List.append_nil piece).symm, .inl rfl, hpiece, h, .inl rfl⟩
  | cons piece rest hpiece ih =>
    cases htext : Text.decode? piece with
    | none => exact ⟨[], piece, 10 :: rest, rfl, .inl rfl, hpiece, htext, .inr ⟨rest, rfl⟩⟩
    | some front =>
      obtain rfl := Text.decode?_eq_some_iff.mp htext
      -- If the rest were UTF-8, so would be the whole, with a feed between its parts.
      have hrest : Text.decode? rest = none := by
        rw [Option.eq_none_iff_forall_not_mem]
        intro t ht
        have hwhole : Text.encode (front ++ '\n' :: t) = Text.encode front ++ 10 :: rest := by
          rw [Text.encode_append, Text.decode?_eq_some_iff.mp ht]
          rfl
        rw [← hwhole, Text.decode?_encode] at h
        cases h
      obtain ⟨before, line, after, hbreaks⟩ := ih hrest
      exact ⟨_, line, after, hbreaks.cons front⟩

/-! ### Serving -/

namespace Handler

variable {σ τ : Type}

/-- A service, and what serving comes to that goes on from the handler it leaves behind. Nothing
goes on after a fault. -/
def Service.andThen (service : Service σ τ) (next : Handler σ τ → Service σ τ) : Service σ τ :=
  match service.fault with
  | some _ => service
  | none =>
    { next service.handler with output := service.output ++ (next service.handler).output }

/-- Without a fault the second part is served by the handler that the first part left behind. -/
theorem Service.andThen_of_fault_eq_none {service : Service σ τ} (h : service.fault = none)
    (next : Handler σ τ → Service σ τ) :
    service.andThen next
      = { next service.handler with
          output := service.output ++ (next service.handler).output } := by
  unfold andThen
  rw [h]

/-- What has been written before a service stands before what is written after it. -/
theorem Service.andThen_cons (line : Text) (service : Service σ τ)
    (next : Handler σ τ → Service σ τ) :
    Service.andThen { service with output := line :: service.output } next
      = { service.andThen next with output := line :: (service.andThen next).output } := by
  obtain ⟨output, fault, handler⟩ := service
  cases fault <;> rfl

variable [RandomSource σ] [SharedValue τ]

/-- Lines are served one after the other. The induction is on the first lines, with a case for
each of the three things that a line can be; only the first case ends everything. -/
theorem serveLines_append (handler : Handler σ τ) (lines more : List Bytes) :
    handler.serveLines (lines ++ more)
      = (handler.serveLines lines).andThen fun left => left.serveLines more := by
  induction lines generalizing handler with
  | nil => rfl
  | cons line rest ih =>
    rw [List.cons_append]
    cases htext : Text.decode? line with
    | none =>
      rw [serveLines_cons_of_undecodable _ htext, serveLines_cons_of_undecodable _ htext]
      rfl
    | some text =>
      cases hrequest : Request.ofLine? text with
      | none =>
        rw [serveLines_cons_of_blank _ htext hrequest, serveLines_cons_of_blank _ htext hrequest,
          ih]
      | some request =>
        rw [serveLines_cons_of_request _ htext hrequest,
          serveLines_cons_of_request _ htext hrequest, ih, Service.andThen_cons]

/-- Behind the end of a line a stream is served by itself. -/
theorem serve_append (handler : Handler σ τ) {input : Bytes} (hends : Text.EndsLine 10 input)
    (rest : Bytes) :
    handler.serve (input ++ rest) = (handler.serve input).andThen fun left => left.serve rest := by
  unfold serve
  rw [Text.cutLines_append_of_endsLine (by decide) hends, serveLines_append]

/-- UTF-8 is served without a fault. -/
theorem fault_serve_of_decode? (handler : Handler σ τ) {input : Bytes} {text : Text}
    (h : Text.decode? input = some text) : (handler.serve input).fault = none := by
  rw [Text.decode?_eq_some_iff.mp h, serve_encode]

/-- A stream that breaks is answered up to the break, and serving ends there. What stands behind
the break is not looked at, so it may be anything. -/
theorem serve_of_breaksAt (handler : Handler σ τ) {input : Bytes} {before : Text}
    {line after : Bytes} (h : BreaksAt input before line after) :
    handler.serve input
      = { output := (handler.handleAll (Request.ofLines before)).1.map Response.render
          fault := some (.storage .invalidEncoding)
          handler := (handler.handleAll (Request.ofLines before)).2 } := by
  obtain ⟨front, rest, hcut, hundecodable⟩ := h.cutLines_line
  -- From the line on nothing is written, whichever handler is left before it.
  have hline : ∀ left : Handler σ τ, left.serve (line ++ after)
      = { output := [], fault := some (.storage .invalidEncoding), handler := left } := by
    intro left
    unfold serve
    rw [hcut, serveLines_cons_of_undecodable _ hundecodable]
  rw [h.parts, serve_append _ h.before_ends.encode, serve_encode,
    Service.andThen_of_fault_eq_none rfl, hline, List.append_nil]

/-- Serving is a stream over lines, from any handler. Let one input be UTF-8 and stop at the end
of a line. Then another input behind it is served by itself, from the handler that the first one
leaves behind: what is written for both is what is written for the one and then for the other.

If a line of an input is not UTF-8, the input breaks at the first such line. What is written are
the responses to the requests of the lines before it, and serving ends with a fault. The handler,
with its random source and its shared value, is as these requests leave it. What stands behind
the line makes no difference. -/
theorem serve_is_stream (handler : Handler σ τ) :
    (∀ input rest : Bytes, Text.EndsLine 10 input → (Text.decode? input).isSome = true →
      handler.serve (input ++ rest)
        = { output := (handler.serve input).output
              ++ ((handler.serve input).handler.serve rest).output
            fault := ((handler.serve input).handler.serve rest).fault
            handler := ((handler.serve input).handler.serve rest).handler }) ∧
      (∀ input : Bytes, (∃ line ∈ Text.cutLines 13 10 input, Text.decode? line = none) →
        ∃ before line after, BreaksAt input before line after) ∧
      ∀ (input : Bytes) (before : Text) (line after : Bytes), BreaksAt input before line after →
        handler.serve input
          = { output := (handler.handleAll (Request.ofLines before)).1.map Response.render
              fault := some (.storage .invalidEncoding)
              handler := (handler.handleAll (Request.ofLines before)).2 } := by
  refine ⟨fun input rest hends hvalid => ?_, fun input hlines => ?_,
    fun input before line after hbreaks => handler.serve_of_breaksAt hbreaks⟩
  · -- Where all of the input is UTF-8 no fault comes up, so the rest is served.
    obtain ⟨text, htext⟩ := Option.isSome_iff_exists.mp hvalid
    rw [handler.serve_append hends,
      Service.andThen_of_fault_eq_none (handler.fault_serve_of_decode? htext)]
  · -- A line that is not UTF-8 makes the input one that is not, which breaks at its first such
    -- line.
    obtain ⟨line, hmem, hundecodable⟩ := hlines
    exact exists_breaksAt (Text.decode?_eq_none_of_mem_cutLines hmem hundecodable)

/-- A handler for a dialogue about Eve. -/
def visitor : Handler Script Unit :=
  { generator := seeker "Eve".toList, source := Script.ofWords [0], shared := none }

/-- A request for a sentence and a blank line, with something behind them, and a stream that
breaks in its second line, before its carriage return and in front of another request. -/
theorem serve_is_stream_visitor :
    visitor.serve (Text.encode "get_speech_cmd 1\n \r\n".toList ++ [255, 10])
        = { output := (visitor.serve (Text.encode "get_speech_cmd 1\n \r\n".toList)).output
              ++ ((visitor.serve (Text.encode "get_speech_cmd 1\n \r\n".toList)).handler.serve
                [255, 10]).output
            fault := ((visitor.serve (Text.encode "get_speech_cmd 1\n \r\n".toList)).handler.serve
              [255, 10]).fault
            handler := ((visitor.serve (Text.encode "get_speech_cmd 1\n \r\n".toList)).handler.serve
              [255, 10]).handler } ∧
      (∃ before line after,
        BreaksAt (Text.encode "hello 1\r\n".toList ++ ([255, 13] ++ [10, 104, 105])) before line
          after) ∧
      (visitor.serve (Text.encode "hello 1\r\n".toList ++ ([255, 13] ++ [10, 104, 105]))).output
        = ["hello \"1\" 0".toList] := by
  obtain ⟨hstream, hexists, hserve⟩ := visitor.serve_is_stream
  have hbreaks : BreaksAt (Text.encode "hello 1\r\n".toList ++ ([255, 13] ++ [10, 104, 105]))
      "hello 1\r\n".toList [255, 13] [10, 104, 105] :=
    { parts := rfl
      before_ends := .inr (by decide)
      line_feed := by decide
      undecodable := by decide +kernel
      after_feed := .inr ⟨_, rfl⟩ }
  refine ⟨hstream _ _ (.inr (by decide +kernel)) ?_, hexists _ ⟨[255], ?_, ?_⟩, ?_⟩
  · rw [Text.decode?_encode]
    rfl
  · decide +kernel
  · decide +kernel
  · rw [hserve _ _ _ _ hbreaks]
    decide +kernel

end Handler

end TaskGrammar
