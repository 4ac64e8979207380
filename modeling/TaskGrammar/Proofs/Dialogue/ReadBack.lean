import Mathlib.Data.List.Basic
import Mathlib.Data.List.TakeWhile
import TaskGrammar.Dialogue
import TaskGrammar.Proofs.Text.Lines

/-!
# `TaskGrammar.Proofs.Dialogue.ReadBack`: requests and responses read back from their lines

The parameters of a response stand between quotes that nothing escapes. So a sentence may hold
what looks like the end of a response, and even the start of the next one. A line is read from
both ends all the same: a command has no blank, so the first blank ends it, and from the last
quote on there are always three characters. The theorems:

* `Request.isRead_of_ofLine?`: what the request of a line is like.
* `Request.ofLine?_spaced`: such a request is read again, however it is spaced.
* `Response.ofLine?_eq_some_iff`: the lines that are read as a response are the renderings of the
  response, if its command has no blank.
* `Response.render_eq_render_iff`: responses to requests have the same line only if they are the
  same.
-/

set_option autoImplicit false

namespace TaskGrammar

/-! ### Requests -/

namespace Request

/-- What is true of a request that a line has. -/
structure IsRead (request : Request) : Prop where
  command_ne_nil : request.command ≠ []
  /-- No character of the command is white space. -/
  command_not_blank : ∀ c ∈ request.command, Text.isBlank c = false
  params_trimmed : Text.trim request.params = request.params

/-- The request of a line has a command, which is without blanks, and trimmed parameters. This is
all that is known of a request, and all that is needed to read it again. -/
theorem isRead_of_ofLine? {line : Text} {request : Request} (h : ofLine? line = some request) :
    request.IsRead := by
  unfold ofLine? at h
  split at h
  · cases h
  · rename_i hne
    obtain rfl := Option.some.inj h
    refine ⟨?_, ?_, Text.trim_trim _⟩
    · -- A trimmed line does not start with a blank, so its first character is in the command.
      intro hnil
      have hstart := (Text.trim_eq_self_iff.mp (Text.trim_trim line)).1
      cases htrim : Text.trim line with
      | nil => exact hne htrim
      | cons c rest =>
        have hc : Text.isBlank c = false := hstart c (by rw [htrim]; rfl)
        rw [htrim, List.takeWhile_cons_of_pos (by rw [hc]; rfl)] at hnil
        cases hnil
    · exact fun c hc => Text.isBlank_eq_false_of_mem_takeWhile hc

namespace IsRead

variable {request : Request}

/-- A command is not changed by trimming, since no character of it is a blank. -/
theorem trim_command (h : request.IsRead) : Text.trim request.command = request.command := by
  rw [Text.trim_eq_self_iff]
  exact ⟨fun c hc => h.command_not_blank c (List.mem_of_mem_head? hc),
    fun c hc => h.command_not_blank c (List.mem_of_mem_getLast? hc)⟩

/-- Blanks between the command and the parameters are lost only if there are no parameters. With
parameters both ends of the line are visible. -/
theorem trim_spaced (h : request.IsRead) (gap : Text) (hparams : request.params ≠ []) :
    Text.trim (request.command ++ (gap ++ request.params))
      = request.command ++ (gap ++ request.params) := by
  rw [Text.trim_eq_self_iff]
  constructor
  · intro c hc
    rw [List.head?_append_of_ne_nil _ h.command_ne_nil] at hc
    exact (Text.trim_eq_self_iff.mp h.trim_command).1 c hc
  · intro c hc
    rw [← List.append_assoc, List.getLast?_append_of_ne_nil _ hparams] at hc
    exact (Text.trim_eq_self_iff.mp h.params_trimmed).2 c hc

end IsRead

/-- Blanks around a line change nothing. -/
theorem ofLine?_surrounded {before after : Text} (hbefore : before.all Text.isBlank = true)
    (hafter : after.all Text.isBlank = true) (line : Text) :
    ofLine? (before ++ line ++ after) = ofLine? line := by
  unfold ofLine?
  rw [Text.trim_append_of_all_isBlank_right _ hafter,
    Text.trim_append_of_all_isBlank_left hbefore]

/-- A command and its parameters are read, whatever blanks are between them. Without parameters
the blanks stand at the end of the line, which is why the two cases are apart. -/
theorem ofLine?_joined {request : Request} (h : request.IsRead) {gap : Text}
    (hgap : gap.all Text.isBlank = true) (hne : gap ≠ []) :
    ofLine? (request.command ++ (gap ++ request.params)) = some request := by
  have hcommand := Text.all_not_isBlank h.command_not_blank
  unfold ofLine?
  by_cases hparams : request.params = []
  · -- The gap is at the end of the line, and is trimmed away.
    have htrim : Text.trim (request.command ++ (gap ++ request.params)) = request.command := by
      rw [hparams, List.append_nil, Text.trim_append_of_all_isBlank_right _ hgap, h.trim_command]
    have hall := List.all_eq_true.mp hcommand
    rw [htrim, if_neg h.command_ne_nil, List.takeWhile_eq_self_iff.mpr hall,
      List.dropWhile_eq_nil_iff.mpr hall, ← hparams, h.params_trimmed]
  · obtain ⟨blank, more, rfl⟩ := List.exists_cons_of_ne_nil hne
    have hblank : (!Text.isBlank blank) = false := by
      rw [List.all_eq_true.mp hgap blank List.mem_cons_self]
      rfl
    have hsplit := Text.takeWhile_append_cons (more ++ request.params) hcommand hblank
    have hnil : request.command ++ (blank :: more ++ request.params) ≠ [] :=
      List.append_ne_nil_of_left_ne_nil h.command_ne_nil _
    rw [h.trim_spaced _ hparams, if_neg hnil, List.cons_append, hsplit.1, hsplit.2,
      ← List.cons_append, Text.trim_append_of_all_isBlank_left hgap, h.params_trimmed]

/-- So they are whatever blanks are around them. -/
theorem ofLine?_spaced {request : Request} (h : request.IsRead) {before gap after : Text}
    (hbefore : before.all Text.isBlank = true) (hgap : gap.all Text.isBlank = true)
    (hafter : after.all Text.isBlank = true) (hne : gap ≠ []) :
    ofLine? (before ++ (request.command ++ (gap ++ request.params)) ++ after) = some request := by
  rw [ofLine?_surrounded hbefore hafter, ofLine?_joined h hgap hne]

end Request

/-! ### Responses -/

namespace Response

/-- The response of a line. The command ends at the first blank; the last three characters are a
quote, a space and the flag; the parameters are between the quotes. -/
def ofLine? (line : Text) : Option Response :=
  match line.dropWhile fun c => !Text.isBlank c with
  | ' ' :: '"' :: rest =>
    match rest.reverse with
    | flag :: ' ' :: '"' :: params =>
      if flag = '1' ∨ flag = '0' then
        some {
          command := line.takeWhile fun c => !Text.isBlank c
          params := params.reverse
          success := flag = '1' }
      else none
    | _ => none
  | _ => none

/-- What the flag of a response is. -/
def flag (response : Response) : Char :=
  if response.success then '1' else '0'

/-- The line of a response ends with three characters that are no part of its parameters. From
these it is read backwards. -/
theorem render_eq (response : Response) :
    response.render
      = response.command ++ ' ' :: '"' :: (response.params ++ ['"', ' ', response.flag]) := by
  unfold render flag
  simp only [List.append_assoc, List.cons_append, List.nil_append]

/-- A response is read from its line if the command has no blank, whatever the parameters are. The
command ends at the first blank, and the last three characters are taken off from behind. -/
theorem ofLine?_render {response : Response}
    (h : ∀ c ∈ response.command, Text.isBlank c = false) :
    ofLine? response.render = some response := by
  have hsplit := Text.takeWhile_append_cons (c := ' ')
    ('"' :: (response.params ++ ['"', ' ', response.flag])) (Text.all_not_isBlank h) (by decide)
  rw [render_eq, ofLine?, hsplit.1, hsplit.2]
  simp only [List.reverse_append, List.reverse_cons, List.reverse_nil, List.nil_append,
    List.cons_append, List.reverse_reverse]
  unfold flag
  cases response with
  | mk command params success => cases success <;> rfl

/-- What is read as a response is the line of the response. So no two lines are read as the same
one. -/
theorem render_of_ofLine? {line : Text} {response : Response} (h : ofLine? line = some response) :
    (∀ c ∈ response.command, Text.isBlank c = false) ∧ response.render = line := by
  unfold ofLine? at h
  split at h
  · rename_i rest hdrop
    split at h
    · rename_i flag params hreverse
      split at h
      · rename_i hflag
        obtain rfl := Option.some.inj h
        -- The rest was read from its end.
        have hrest : rest = params.reverse ++ ['"', ' ', flag] := by
          rw [← List.reverse_reverse rest, hreverse]
          simp only [List.reverse_cons, List.append_assoc, List.cons_append, List.nil_append]
        constructor
        · exact fun c hc => Text.isBlank_eq_false_of_mem_takeWhile hc
        · have hline := List.takeWhile_append_dropWhile (p := fun c => !Text.isBlank c) (l := line)
          rw [hdrop, hrest] at hline
          rw [render_eq]
          refine Eq.trans ?_ hline
          rcases hflag with rfl | rfl <;> rfl
      · cases h
    · cases h
  · cases h

/-- The lines that are read as a response are its renderings. -/
theorem ofLine?_eq_some_iff {line : Text} {response : Response} :
    ofLine? line = some response ↔
      (∀ c ∈ response.command, Text.isBlank c = false) ∧ response.render = line := by
  constructor
  · exact render_of_ofLine?
  · rintro ⟨hcommand, rfl⟩
    exact ofLine?_render hcommand

/-- A response that a request can have: any sentence, or the request given back. -/
inductive IsFor (request : Request) : Response → Prop
  | success (sentence : Text) : IsFor request (.succeed request sentence)
  | failure : IsFor request (.fail request)

/-- A response to a request has its command. -/
theorem IsFor.command_eq {request : Request} {response : Response} (h : response.IsFor request) :
    response.command = request.command := by
  cases h <;> rfl

/-- A response to a request of a line is read from its own line. -/
theorem IsFor.ofLine?_render {request : Request} {response : Response} (h : response.IsFor request)
    (hread : request.IsRead) : ofLine? response.render = some response := by
  rw [ofLine?_eq_some_iff, h.command_eq]
  exact ⟨hread.command_not_blank, rfl⟩

/-- Responses to requests of any lines. If they are rendered alike, they are the same: the same
command, the same parameters and the same flag. For the line of a response is read back, whatever
its parameters are.

This rests on what requests are like. A request of a line has a command without white space, and
trimmed parameters. It is read again from the command and the parameters with any white space
between them, of which there must be some, and any around them. -/
theorem render_eq_render_iff {line line' : Text} {request request' : Request}
    {response response' : Response} (hrequest : Request.ofLine? line = some request)
    (hrequest' : Request.ofLine? line' = some request') (hresponse : response.IsFor request)
    (hresponse' : response'.IsFor request') :
    (response.render = response'.render ↔ response = response') ∧
      ofLine? response.render = some response ∧
      request.IsRead ∧
      ∀ before gap after : Text, before.all Text.isBlank = true → gap.all Text.isBlank = true →
        after.all Text.isBlank = true → gap ≠ [] →
        Request.ofLine? (before ++ (request.command ++ (gap ++ request.params)) ++ after)
          = some request := by
  have hread := Request.isRead_of_ofLine? hrequest
  have hback := hresponse.ofLine?_render hread
  have hback' := hresponse'.ofLine?_render (Request.isRead_of_ofLine? hrequest')
  refine ⟨⟨fun hrender => ?_, fun heq => congrArg render heq⟩, hback, hread, ?_⟩
  · -- Both are read from the same line, and what is read of a line is one response.
    rw [hrender, hback'] at hback
    exact (Option.some.inj hback).symm
  · intro before gap after hbefore hgap hafter hne
    exact Request.ofLine?_spaced hread hbefore hgap hafter hne

/-- A sentence that looks like the end of a response and the start of another one, and a refusal
with a command that has a quote. Both are told from their lines. -/
theorem render_eq_render_iff_quoting :
    Request.ofLine? " get_speech_cmd\t1".toList = some ⟨Request.speechCommand, "1".toList⟩ ∧
      Request.ofLine? "say\"\u3000 \" 1\n".toList = some ⟨"say\"".toList, "\" 1".toList⟩ ∧
      ofLine? (succeed ⟨Request.speechCommand, "1".toList⟩ "Go\" 0\nplay \"now".toList).render
        = some ⟨Request.speechCommand, "Go\" 0\nplay \"now".toList, true⟩ ∧
      (succeed ⟨Request.speechCommand, "1".toList⟩ "Go\" 0\nplay \"now".toList).render
        ≠ (fail ⟨"say\"".toList, "\" 1".toList⟩).render ∧
      Request.ofLine? ("  ".toList ++ (Request.speechCommand ++ ("\t\t".toList ++ "1".toList))
        ++ ['\n']) = some ⟨Request.speechCommand, "1".toList⟩ := by
  have hasked : Request.ofLine? " get_speech_cmd\t1".toList
      = some ⟨Request.speechCommand, "1".toList⟩ := by decide
  have hsaid : Request.ofLine? "say\"\u3000 \" 1\n".toList
      = some ⟨"say\"".toList, "\" 1".toList⟩ := by decide
  obtain ⟨hrender, hback, -, hspaced⟩ := render_eq_render_iff hasked hsaid
    (.success "Go\" 0\nplay \"now".toList) .failure
  refine ⟨hasked, hsaid, hback, fun heq => ?_, ?_⟩
  · exact absurd (congrArg success (hrender.mp heq)) (by decide)
  · exact hspaced "  ".toList "\t\t".toList ['\n'] (by decide) (by decide) (by decide) (by decide)

end Response

end TaskGrammar
