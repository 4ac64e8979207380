import TaskGrammar.Proofs.Template.Scanning
import TaskGrammar.Proofs.Text.Positions

/-!
# `TaskGrammar.Proofs.Template.Cursor`: the scanner at byte positions

`segmentAt?` moves a cursor over the bytes of a template. It cuts texts out at the
positions that the cursor has reached, and counts braces byte by byte. From a position at
which a character starts, none of this fails: what the cursor passes are whole characters,
since no byte of a longer character is that of a brace.

* `scanBraces?_encode`: counting braces in the bytes is counting them in the characters.
* `segmentAt?_append`: from such a position the segment is the one that `scan?` reads off
  what follows, and the cursor ends up behind its source.
* `Scans`: the calls of the scanner one after the other, until the end.
* `segmentAt?_total_lossless`: the scanner is total and loses nothing.
-/

set_option autoImplicit false

namespace TaskGrammar

namespace Segment

/-! ### Braces in bytes -/

/-- Bytes that are no braces are passed over. This is so for all bytes of a character but a brace,
so characters need not be put together to count braces. -/
theorem scanBraces?_append {cursor depth : Nat} {bytes rest : Bytes}
    (hopening : '{'.toUInt8 ∉ bytes) (hclosing : '}'.toUInt8 ∉ bytes) :
    scanBraces? cursor (depth + 1) (bytes ++ rest)
      = scanBraces? (cursor + bytes.length) (depth + 1) rest := by
  induction bytes generalizing cursor with
  | nil => rfl
  | cons byte bytes ih =>
    rw [List.mem_cons, not_or] at hopening hclosing
    rw [List.cons_append, scanBraces?, if_neg (Ne.symm hopening.1), if_neg (Ne.symm hclosing.1)]
    simp only
    rw [ih hopening.2 hclosing.2, List.length_cons]
    congr 1
    omega

/-- One brace more is open behind an opening one. -/
theorem scanBraces?_opening (cursor depth : Nat) (rest : Bytes) :
    scanBraces? cursor (depth + 1) ('{'.toUInt8 :: rest)
      = scanBraces? (cursor + 1) (depth + 2) rest := rfl

/-- And one less behind a closing one, as long as it is not the last. -/
theorem scanBraces?_closing (cursor depth : Nat) (rest : Bytes) :
    scanBraces? cursor (depth + 2) ('}'.toUInt8 :: rest)
      = scanBraces? (cursor + 1) (depth + 1) rest := rfl

/-- With some brace open, the cursor stops behind the brace that closes the first one, or
at the end with some brace still open. The counter never falls below zero. -/
theorem scanBraces?_encode (cursor depth : Nat) (t : Text) :
    ∃ left, scanBraces? cursor (depth + 1) (Text.encode t)
        = some (cursor + Text.utf8Length ((scanParams depth t).params
            ++ closing (scanParams depth t).terminated), left) ∧
      (left = 0 ↔ (scanParams depth t).terminated = true) := by
  induction t generalizing cursor depth with
  | nil => exact ⟨depth + 1, rfl, by simp [scanParams]⟩
  | cons c t ih =>
    have hencode : Text.encode (c :: t) = String.utf8EncodeChar c ++ Text.encode t := rfl
    by_cases hclosing : c = '}'
    · subst hclosing
      cases depth with
      | zero =>
        -- This brace closes the wildcard, and what follows is not looked at.
        exact ⟨0, rfl, by simp [scanParams]⟩
      | succ depth =>
        obtain ⟨left, hleft, hiff⟩ := ih (cursor + 1) depth
        refine ⟨left, ?_, by simpa [scanParams] using hiff⟩
        rw [hencode, show String.utf8EncodeChar '}' = ['}'.toUInt8] from rfl, List.singleton_append,
          scanBraces?_closing, hleft]
        simp [scanParams, Text.utf8Length, Nat.add_assoc, show '}'.utf8Size = 1 from rfl]
    · by_cases hopening : c = '{'
      · subst hopening
        obtain ⟨left, hleft, hiff⟩ := ih (cursor + 1) (depth + 1)
        refine ⟨left, ?_, by simpa [scanParams] using hiff⟩
        rw [hencode, show String.utf8EncodeChar '{' = ['{'.toUInt8] from rfl, List.singleton_append,
          scanBraces?_opening, hleft]
        simp [scanParams, Text.utf8Length, Nat.add_assoc, show '{'.utf8Size = 1 from rfl]
      · -- A character that is no brace has no byte of one.
        obtain ⟨left, hleft, hiff⟩ := ih (cursor + c.utf8Size) depth
        refine ⟨left, ?_, by simpa [scanParams, hopening, hclosing] using hiff⟩
        have hmem : ∀ {mark : Char}, mark.val.toNat ≤ 127 → c ≠ mark →
            mark.toUInt8 ∉ String.utf8EncodeChar c := by
          intro mark hmark hne hmem
          exact hne ((Text.toUInt8_mem_utf8EncodeChar hmark).mp hmem).symm
        rw [hencode, scanBraces?_append (hmem (by decide) hopening) (hmem (by decide) hclosing),
          String.length_utf8EncodeChar, hleft]
        simp [scanParams, hopening, hclosing, Text.utf8Length, Nat.add_assoc]

/-! ### One call -/

/-- The parameters are cut out without the closing brace, if it is there. Without it they reach to
the end of the template. -/
theorem slice?_scanParams (before t : Text) :
    Text.slice? (before ++ t) (Text.utf8Length before)
      (if (scanParams 0 t).terminated = true then
        Text.utf8Length before
          + Text.utf8Length ((scanParams 0 t).params ++ closing (scanParams 0 t).terminated) - 1
      else Text.utf8Length before
          + Text.utf8Length ((scanParams 0 t).params ++ closing (scanParams 0 t).terminated))
      = some (scanParams 0 t).params := by
  have hsplit := scanParams_append 0 t
  generalize scanParams 0 t = read at hsplit ⊢
  obtain ⟨params, terminated, rest⟩ := read
  simp only [List.append_assoc] at hsplit ⊢
  have hslice := Text.slice?_append before params (closing terminated ++ rest)
  rw [hsplit, Text.utf8Length_append] at hslice
  rw [Text.utf8Length_append]
  cases terminated with
  | false => exact hslice
  | true => exact hslice

/-- At an opening brace the cursor goes over the blanks, the key and the parameters that
the characters show. -/
theorem wildcardAt?_append (before t : Text) :
    ∃ found, (scanWildcard t).segment = .wildcard found ∧
      wildcardAt? (before ++ '{' :: t) (Text.utf8Length before)
        = some (found, Text.utf8Length (before ++ (scanWildcard t).source)) := by
  obtain ⟨blanks, hblanks⟩ : ∃ blanks, t.takeWhile Text.isBlank = blanks := ⟨_, rfl⟩
  obtain ⟨body, hbody⟩ : ∃ body, t.dropWhile Text.isBlank = body := ⟨_, rfl⟩
  obtain ⟨key, hkey⟩ : ∃ key, body.takeWhile Text.isLetter = key := ⟨_, rfl⟩
  obtain ⟨tail, htail⟩ : ∃ tail, body.dropWhile Text.isLetter = tail := ⟨_, rfl⟩
  have hsplit : t = blanks ++ body := by
    rw [← hblanks, ← hbody, List.takeWhile_append_dropWhile]
  have hsplitBody : body = key ++ tail := by
    rw [← hkey, ← htail, List.takeWhile_append_dropWhile]
  -- The places that the cursor comes to: behind the opening brace, the blanks and the key.
  obtain ⟨start, hstart⟩ : ∃ start, before ++ ['{'] = start := ⟨_, rfl⟩
  obtain ⟨keyStart, hkeyStart⟩ : ∃ keyStart, start ++ blanks = keyStart := ⟨_, rfl⟩
  obtain ⟨paramsStart, hparamsStart⟩ : ∃ paramsStart, keyStart ++ key = paramsStart := ⟨_, rfl⟩
  have htemplate : before ++ '{' :: t = start ++ t := by
    rw [← hstart, List.append_assoc, List.singleton_append]
  have htemplate' : start ++ t = keyStart ++ body := by
    rw [← hkeyStart, hsplit, List.append_assoc]
  have htemplate'' : keyStart ++ body = paramsStart ++ tail := by
    rw [← hparamsStart, hsplitBody, List.append_assoc]
  have hopening : Text.utf8Length before + 1 = Text.utf8Length start := by
    rw [← hstart, Text.utf8Length_append]
    rfl
  have hskipBlanks : Text.skipBlanks? (start ++ t) (Text.utf8Length start)
      = some (Text.utf8Length keyStart) := by
    rw [Text.skipBlanks?_append, hblanks, hkeyStart]
  have hskipKey : Text.skipWhile? Text.isLetter (start ++ t) (Text.utf8Length keyStart)
      = some (Text.utf8Length paramsStart) := by
    rw [htemplate', Text.skipWhile?_append, hkey, hparamsStart]
  have hcutKey : Text.slice? (start ++ t) (Text.utf8Length keyStart) (Text.utf8Length paramsStart)
      = some key := by
    rw [htemplate', hsplitBody, ← hparamsStart, Text.slice?_append]
  have hbytes : (Text.encode (start ++ t)).drop (Text.utf8Length paramsStart)
      = Text.encode tail := by
    rw [htemplate', htemplate'', Text.drop_encode_append]
  have hcutParams := slice?_scanParams paramsStart tail
  rw [← htemplate'', ← htemplate'] at hcutParams
  obtain ⟨left, hbraces, hleft⟩ := scanBraces?_encode (Text.utf8Length paramsStart) 0 tail
  have hterminated : (left == 0) = (scanParams 0 tail).terminated := by
    rw [Bool.eq_iff_iff, beq_iff_eq, hleft]
  refine ⟨⟨key, (scanParams 0 tail).params, (scanParams 0 tail).terminated⟩, ?_, ?_⟩
  · simp only [scanWildcard, hbody, hkey, htail]
  · have hsource : before ++ (scanWildcard t).source = paramsStart
        ++ ((scanParams 0 tail).params ++ closing (scanParams 0 tail).terminated) := by
      simp only [scanWildcard, hblanks, hbody, hkey, htail, ← hstart, ← hkeyStart, ← hparamsStart,
        List.append_assoc, List.cons_append, List.nil_append]
    rw [hsource, htemplate, Text.utf8Length_append]
    simp only [wildcardAt?, hopening, hskipBlanks, hskipKey, hcutKey, hbytes, hbraces, hterminated,
      hcutParams, Option.bind_eq_bind, Option.bind_some, Option.pure_def]

/-- From a position at which a character starts, or at the end, the scanner gives what
`scan?` reads off the rest, and moves over the source of that. -/
theorem segmentAt?_append (before after : Text) :
    segmentAt? (before ++ after) (Text.utf8Length before)
      = some (match scan? after with
        | none => (.literal [], Text.utf8Length before)
        | some scanned => (scanned.segment, Text.utf8Length (before ++ scanned.source))) := by
  have hrest := Text.slice?_append_utf8Length before after
  cases after with
  | nil =>
    have hskip := Text.skipWhile?_append isPlain before []
    rw [List.append_nil] at hrest hskip
    simp only [segmentAt?, hrest, hskip, List.append_nil, List.takeWhile_nil, scan?,
      List.head?_nil, reduceCtorEq, if_false, Option.bind_eq_bind, Option.bind_some,
      Option.pure_def]
  | cons c t =>
    by_cases hsigil : c = sigil
    · subst hsigil
      -- The sigil itself is past before identifier characters are compared.
      have hskip := Text.skipWhile?_append Text.isIdentifier (before ++ [sigil]) t
      have hcut := Text.slice?_append before (sigil :: t.takeWhile Text.isIdentifier)
        (t.dropWhile Text.isIdentifier)
      rw [List.cons_append, List.takeWhile_append_dropWhile] at hcut
      rw [List.append_assoc, List.append_assoc, List.singleton_append, List.singleton_append,
        Text.utf8Length_append before [sigil]] at hskip
      have hsize : Text.utf8Length [sigil] = sigil.utf8Size := rfl
      rw [hsize] at hskip
      simp only [segmentAt?, scan?, hrest, hskip, hcut, List.head?_cons, if_true,
        Option.bind_eq_bind, Option.bind_some, Option.pure_def]
    · by_cases hbrace : c = '{'
      · subst hbrace
        obtain ⟨found, hsegment, hfound⟩ := wildcardAt?_append before t
        simp only [segmentAt?, scan?, hrest, hsegment, hfound, List.head?_cons, Option.some.injEq,
          hsigil, if_false, if_true, Option.bind_eq_bind, Option.bind_some, Option.pure_def]
      · have hplain : isPlain c = true := by
          simp [isPlain, hsigil, hbrace]
        have hskip := Text.skipWhile?_append isPlain before (c :: t)
        have hcut := Text.slice?_append before (c :: t.takeWhile isPlain) (t.dropWhile isPlain)
        rw [List.cons_append, List.takeWhile_append_dropWhile] at hcut
        rw [List.takeWhile_cons_of_pos hplain] at hskip
        simp only [segmentAt?, scan?, hrest, hskip, hcut, List.head?_cons, Option.some.injEq,
          hsigil, hbrace, if_false, Option.bind_eq_bind, Option.bind_some, Option.pure_def]

/-- What a call does, whatever stands before the cursor: it moves over a part of the rest
that spells the segment, and over nothing only at the end. -/
theorem exists_call (after : Text) :
    ∃ segment source rest, source ++ rest = after ∧ segment.Spells source ∧
      (source = [] ↔ after = []) ∧ ∀ before,
        segmentAt? (before ++ after) (Text.utf8Length before)
          = some (segment, Text.utf8Length (before ++ source)) := by
  cases hscan : scan? after with
  | none =>
    obtain rfl : after = [] := scan?_eq_none_iff.mp hscan
    refine ⟨.literal [], [], [], rfl, rfl, Iff.rfl, fun before => ?_⟩
    rw [segmentAt?_append, List.append_nil]
    rfl
  | some scanned =>
    have hne : after ≠ [] := by
      rintro rfl
      cases hscan
    refine ⟨scanned.segment, scanned.source, scanned.rest, source_append_rest hscan,
      spells_of_scan? hscan, ?_, fun before => ?_⟩
    · exact ⟨fun h => absurd h (source_ne_nil hscan), fun h => absurd h hne⟩
    · rw [segmentAt?_append, hscan]

/-! ### All calls -/

/-- The calls of the scanner from a cursor on, each with the segment that it gives and the
text that it moves over, and the position at which they stop. -/
inductive Scans (template : Text) : Nat → List (Segment × Text) → Nat → Prop
  | stop {cursor : Nat} (ended : Text.utf8Length template ≤ cursor) :
      Scans template cursor [] cursor
  | call {cursor next last : Nat} {segment : Segment} {source : Text}
      {later : List (Segment × Text)} (inside : cursor < Text.utf8Length template)
      (found : segmentAt? template cursor = some (segment, next))
      (moved : Text.slice? template cursor next = some source)
      (after : Scans template next later last) :
      Scans template cursor ((segment, source) :: later) last

/-- From the start of a segment on, the calls go through the segments of what is left, and
move over all of it. -/
theorem scans_append (before after : Text) :
    ∃ calls, Scans (before ++ after) (Text.utf8Length before) calls
        (Text.utf8Length (before ++ after)) ∧
      calls.map Prod.fst = segments after ∧ calls.flatMap Prod.snd = after ∧
      calls.length ≤ after.length := by
  induction hlength : after.length using Nat.strongRecOn generalizing before after with
  | ind n ih =>
    subst hlength
    cases hscan : scan? after with
    | none =>
      obtain rfl : after = [] := scan?_eq_none_iff.mp hscan
      rw [List.append_nil]
      exact ⟨[], .stop (Nat.le_refl _), segments_nil.symm, rfl, Nat.zero_le _⟩
    | some scanned =>
      obtain ⟨source, segment, rest⟩ := scanned
      have hsplit : source ++ rest = after := source_append_rest hscan
      have hsource : source ≠ [] := source_ne_nil hscan
      have hrest : rest.length < after.length := length_rest_lt hscan
      have hfound := segmentAt?_append before after
      rw [hscan] at hfound
      have hmoved := Text.slice?_append before source rest
      rw [hsplit] at hmoved
      have hinside : Text.utf8Length before < Text.utf8Length (before ++ after) := by
        have hpos := Text.utf8Length_pos_iff.mpr hsource
        rw [← hsplit, Text.utf8Length_append, Text.utf8Length_append]
        omega
      -- The rest of the calls start behind the source.
      obtain ⟨later, hlater, hsegments, hsources, hcount⟩ :=
        ih rest.length hrest (before ++ source) rest rfl
      rw [List.append_assoc, hsplit] at hlater
      refine ⟨(segment, source) :: later, .call hinside hfound hmoved hlater, ?_, ?_, ?_⟩
      · rw [List.map_cons, hsegments, segments_of_scan? hscan]
      · rw [List.flatMap_cons, hsources, hsplit]
      · rw [List.length_cons]
        omega

/-- The scanner is total and loses nothing. From every position at which a character
starts, or at the end of the template, a call succeeds: no slice is out of range or inside
a character, and no brace is closed that is not open. The text that it moves over spells
the segment, ends where a character starts, and is empty only at the end of the template;
segment and text depend on what follows the position alone. One call after the other
reaches the end after as many calls as there are bytes at most, with the segments of the
template, and all that they move over is the template. -/
theorem segmentAt?_total_lossless (template : Text) :
    (∀ cursor after, Text.dropBytes? template cursor = some after →
      ∃ segment source next, segmentAt? template cursor = some (segment, next) ∧
        Text.slice? template cursor next = some source ∧ segment.Spells source ∧
        (∃ rest, Text.dropBytes? template next = some rest) ∧
        next ≤ Text.utf8Length template ∧ (cursor < Text.utf8Length template → cursor < next) ∧
        ∀ other start, Text.dropBytes? other start = some after →
          segmentAt? other start = some (segment, start + Text.utf8Length source)) ∧
    ∃ calls, Scans template 0 calls (Text.utf8Length template) ∧
      calls.length ≤ Text.utf8Length template ∧
      calls.map Prod.fst = segments template ∧ calls.flatMap Prod.snd = template := by
  constructor
  · intro cursor after hafter
    obtain ⟨before, rfl, rfl⟩ := Text.dropBytes?_eq_some_iff.mp hafter
    obtain ⟨segment, source, rest, rfl, hspells, hempty, hcall⟩ := exists_call after
    refine ⟨segment, source, Text.utf8Length (before ++ source), hcall before,
      Text.slice?_append before source rest, hspells, ⟨rest, ?_⟩, ?_, ?_, ?_⟩
    · rw [← List.append_assoc, Text.dropBytes?_append]
    · rw [← List.append_assoc, Text.utf8Length_append (before ++ source)]
      exact Nat.le_add_right _ _
    · intro hinside
      have hsource : source ≠ [] := by
        intro h
        rw [hempty.mp h, List.append_nil] at hinside
        exact Nat.lt_irrefl _ hinside
      rw [Text.utf8Length_append]
      exact Nat.lt_add_of_pos_right (Text.utf8Length_pos_iff.mpr hsource)
    · intro other start hother
      obtain ⟨before', rfl, rfl⟩ := Text.dropBytes?_eq_some_iff.mp hother
      rw [hcall before', Text.utf8Length_append]
  · obtain ⟨calls, hcalls, hsegments, hsources, hcount⟩ := scans_append [] template
    exact ⟨calls, hcalls, Nat.le_trans hcount (Text.length_le_utf8Length template), hsegments,
      hsources⟩

/-- The second byte of a character is no position to read from, the brace after it is. -/
example : segmentAt? "é\x7b x".toList 1 = none ∧
    segmentAt? "é\x7b x".toList 2 = some (.wildcard ⟨"x".toList, [], false⟩, 5) := by
  decide

end Segment

end TaskGrammar
