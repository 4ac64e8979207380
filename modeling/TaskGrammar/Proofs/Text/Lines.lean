import TaskGrammar.Proofs.Text.Positions

/-!
# `TaskGrammar.Proofs.Text.Lines`: lines and the blanks around them

Lines are cut out of a list of symbols at its feeds, and a carriage return directly before
a feed is lost. So whoever writes lines one after the other reads them back only if no line
has a feed or ends with a carriage return. The theorems:

* `lines_unlines` / `lines_dropLast_unlines`: such lines are read back, with or without the
  last feed.
* `notMem_of_mem_lines`: no line that is read has a feed.
* `cutLines_append_of_endsLine`: lines are cut by themselves behind the end of a line.
* `cutLines_encode`: cutting the bytes of a text gives the bytes of its lines.
* `splitOn_unlines_iff`: pieces that are each ended by a mark are cut at the mark exactly if
  none of them has it.
* `trim_eq_self_iff`: a text is trimmed if no blank is at its ends.
* `exists_append_trim`: what is trimmed off a text are the blanks around it.
-/

set_option autoImplicit false

namespace TaskGrammar.Text

/-! ### Lines -/

/-- A list without the mark, and a piece before a list of which this is known: to prove something
of all lists these are the cases. -/
@[elab_as_elim]
theorem pieces_induction {α : Type} (mark : α) {motive : List α → Prop}
    (last : ∀ piece, mark ∉ piece → motive piece)
    (cons : ∀ piece rest, mark ∉ piece → motive rest → motive (piece ++ mark :: rest))
    (t : List α) : motive t := by
  by_cases hmark : mark ∈ t
  · obtain ⟨piece, rest, ht, hpiece⟩ := List.eq_append_cons_of_mem hmark
    have hshorter : rest.length < t.length := by
      rw [ht, List.length_append, List.length_cons]
      omega
    rw [ht]
    exact cons piece rest hpiece (pieces_induction mark last cons rest)
  · exact last t hmark
termination_by t.length

/-- A list that stops at the end of a line, if it has any lines. -/
def EndsLine {α : Type} (feed : α) (t : List α) : Prop :=
  t = [] ∨ t.getLast? = some feed

/-- Whether the last line has ended is seen behind the feeds before it. So it can be asked of the
last piece alone. -/
theorem endsLine_append_feed_iff {α : Type} {feed : α} {line rest : List α} :
    EndsLine feed (line ++ feed :: rest) ↔ EndsLine feed rest := by
  unfold EndsLine
  rcases List.eq_nil_or_concat rest with rfl | ⟨front, a, rfl⟩
  · simp
  · have hlast : line ++ feed :: (front ++ [a]) = (line ++ feed :: front) ++ [a] := by
      rw [List.append_assoc, List.cons_append]
    rw [List.concat_eq_append, hlast, List.getLast?_concat, List.getLast?_concat]
    simp

/-- Without a feed no line has ended. -/
theorem EndsLine.eq_nil {α : Type} {feed : α} {t : List α} (h : EndsLine feed t)
    (hfeed : feed ∉ t) : t = [] :=
  h.resolve_right fun hlast => hfeed (List.mem_of_mem_getLast? hlast)

section CutLines

variable {α : Type} [DecidableEq α] {carriage feed : α}

/-- A feed at the start ends an empty line. -/
theorem cutLines_feed (rest : List α) :
    cutLines carriage feed (feed :: rest) = [] :: cutLines carriage feed rest := by
  rw [cutLines, if_pos rfl]

/-- A symbol that ends no line is the first of its line. -/
theorem cutLines_cons {a : α} {rest line : List α} {lines : List (List α)} (ha : a ≠ feed)
    (hcarriage : a = carriage → rest.head? ≠ some feed)
    (hrest : cutLines carriage feed rest = line :: lines) :
    cutLines carriage feed (a :: rest) = (a :: line) :: lines := by
  rw [cutLines, if_neg ha, if_neg fun h => hcarriage h.1 h.2, hrest]

/-- A line is cut off at its feed. It may not end in a carriage return, as this would be cut off
with the feed. -/
theorem cutLines_append_feed {line : List α} (rest : List α) (hfeed : feed ∉ line)
    (hcarriage : line.getLast? ≠ some carriage) :
    cutLines carriage feed (line ++ feed :: rest) = line :: cutLines carriage feed rest := by
  induction line with
  | nil => exact cutLines_feed rest
  | cons a line ih =>
    rw [List.mem_cons, not_or] at hfeed
    cases line with
    | nil =>
      refine cutLines_cons (Ne.symm hfeed.1) (fun ha => absurd ?_ hcarriage) (cutLines_feed rest)
      rw [ha]
      rfl
    | cons b line =>
      rw [List.getLast?_cons_cons] at hcarriage
      refine cutLines_cons (Ne.symm hfeed.1) (fun _ hhead => hfeed.2 ?_) (ih hfeed.2 hcarriage)
      rw [← Option.some.inj hhead]
      exact List.mem_cons_self

/-- One carriage return before the feed is cut off with it. -/
theorem cutLines_append_carriage {line : List α} (rest : List α) (hne : carriage ≠ feed)
    (hfeed : feed ∉ line) :
    cutLines carriage feed (line ++ carriage :: feed :: rest)
      = line :: cutLines carriage feed rest := by
  induction line with
  | nil =>
    rw [List.nil_append, cutLines, if_neg hne, if_pos ⟨rfl, rfl⟩]
    exact cutLines_feed rest
  | cons a line ih =>
    rw [List.mem_cons, not_or] at hfeed
    refine cutLines_cons (Ne.symm hfeed.1) (fun _ hhead => ?_) (ih hfeed.2)
    -- What comes next is the carriage return, or a symbol of the line, and never the feed.
    cases line with
    | nil => exact hne (Option.some.inj hhead)
    | cons b line => exact hfeed.2 (Option.some.inj hhead ▸ List.mem_cons_self)

/-- What stands before a feed is a line, whatever comes behind it. The line may have lost a
carriage return. -/
theorem exists_cutLines_append_feed {line : List α} (hne : carriage ≠ feed) (hfeed : feed ∉ line) :
    ∃ front, (line = front ∨ line = front ++ [carriage]) ∧
      ∀ rest, cutLines carriage feed (line ++ feed :: rest)
        = front :: cutLines carriage feed rest := by
  by_cases hlast : line.getLast? = some carriage
  · obtain ⟨front, rfl⟩ := List.getLast?_eq_some_iff.mp hlast
    have hfront : feed ∉ front := fun hmem => hfeed (List.mem_append_left _ hmem)
    refine ⟨front, .inr rfl, fun rest => ?_⟩
    rw [List.append_assoc]
    exact cutLines_append_carriage rest hne hfront
  · exact ⟨line, .inl rfl, fun rest => cutLines_append_feed rest hfeed hlast⟩

/-- Behind the end of a line the lines are cut as if nothing was before them. Streams of requests
can be put one after the other for this reason. -/
theorem cutLines_append_of_endsLine {before : List α} (hne : carriage ≠ feed)
    (h : EndsLine feed before) (rest : List α) :
    cutLines carriage feed (before ++ rest)
      = cutLines carriage feed before ++ cutLines carriage feed rest := by
  induction before using pieces_induction feed with
  | last piece hpiece => rw [h.eq_nil hpiece, List.nil_append, cutLines, List.nil_append]
  | cons line later hline ih =>
    obtain ⟨front, -, hcut⟩ := exists_cutLines_append_feed hne hline
    rw [List.append_assoc, List.cons_append, hcut, hcut, ih (endsLine_append_feed_iff.mp h),
      List.cons_append]

/-- Without a feed there is one line, and a carriage return at its end is kept: it is only dropped
with a feed. -/
theorem cutLines_of_notMem {line : List α} (hne : line ≠ []) (hfeed : feed ∉ line) :
    cutLines carriage feed line = [line] := by
  induction line with
  | nil => exact absurd rfl hne
  | cons a line ih =>
    rw [List.mem_cons, not_or] at hfeed
    have hhead : line.head? ≠ some feed := fun h => hfeed.2 (List.mem_of_mem_head? h)
    rw [cutLines, if_neg (Ne.symm hfeed.1), if_neg fun h => hhead h.2]
    cases line with
    | nil => rfl
    | cons b line => rw [ih (List.cons_ne_nil b line) hfeed.2]

/-- No line has a feed. The induction follows the cut, with the line general, as a line grows from
its end. -/
theorem notMem_of_mem_cutLines {t line : List α} (h : line ∈ cutLines carriage feed t) :
    feed ∉ line := by
  induction t generalizing line with
  | nil => cases h
  | cons a t ih =>
    rw [cutLines] at h
    split at h
    · rcases List.mem_cons.mp h with rfl | hlater
      · exact List.not_mem_nil
      · exact ih hlater
    · rename_i ha
      split at h
      · exact ih h
      · split at h
        · rw [List.mem_singleton.mp h, List.mem_singleton]
          exact fun e => ha e.symm
        · rename_i first later hcut
          rw [hcut] at ih
          rcases List.mem_cons.mp h with rfl | hlater
          · rw [List.mem_cons, not_or]
            exact ⟨fun e => ha e.symm, ih List.mem_cons_self⟩
          · exact ih (List.mem_cons_of_mem _ hlater)

/-- Symbols before a line's own, none of which can end a line, belong to the line. It is used for
the bytes of a character, which are several symbols. -/
theorem cutLines_append {before rest : List α} (hfeed : feed ∉ before)
    (hcarriage : carriage ∉ before) (hne : before ≠ []) :
    cutLines carriage feed (before ++ rest) =
      match cutLines carriage feed rest with
      | [] => [before]
      | line :: lines => (before ++ line) :: lines := by
  induction before with
  | nil => exact absurd rfl hne
  | cons a before ih =>
    rw [List.mem_cons, not_or] at hfeed hcarriage
    rw [List.cons_append, cutLines, if_neg (Ne.symm hfeed.1),
      if_neg fun h => hcarriage.1 h.1.symm]
    cases before with
    | nil => rfl
    | cons b before =>
      rw [ih hfeed.2 hcarriage.2 (List.cons_ne_nil b before)]
      cases cutLines carriage feed rest <;> rfl

end CutLines

/-- Lines one after the other, each with a feed at its end. -/
def unlines (lines : List Text) : Text :=
  lines.flatMap fun line => line ++ ['\n']

/-- The first line stands in front of the others, with its feed. -/
theorem unlines_cons (line : Text) (lines : List Text) :
    unlines (line :: lines) = line ++ '\n' :: unlines lines := by
  unfold unlines
  rw [List.flatMap_cons, List.append_assoc, List.singleton_append]

/-- What is written line by line is read back, if no line has a feed or ends with a
carriage return. -/
theorem lines_unlines {lines : List Text}
    (h : ∀ line ∈ lines, '\n' ∉ line ∧ line.getLast? ≠ some '\r') :
    Text.lines (unlines lines) = lines := by
  induction lines with
  | nil => rfl
  | cons line rest ih =>
    rw [List.forall_mem_cons] at h
    rw [unlines_cons, Text.lines, cutLines_append_feed _ h.1.1 h.1.2]
    exact congrArg (line :: ·) (ih h.2)

/-- The feed at the very end is not needed, unless the last line is empty. A line that ends in a
carriage return would be read as another one, which is why this is kept out. -/
theorem lines_dropLast_unlines {lines : List Text}
    (h : ∀ line ∈ lines, line ≠ [] ∧ '\n' ∉ line ∧ line.getLast? ≠ some '\r') :
    Text.lines (unlines lines).dropLast = lines := by
  induction lines with
  | nil => rfl
  | cons line rest ih =>
    rw [List.forall_mem_cons] at h
    rw [unlines_cons]
    cases rest with
    | nil =>
      rw [show unlines [] = [] from rfl, List.dropLast_concat]
      exact cutLines_of_notMem h.1.1 h.1.2.1
    | cons next rest =>
      have hne : '\n' :: unlines (next :: rest) ≠ [] := List.cons_ne_nil _ _
      have hne' : unlines (next :: rest) ≠ [] := by simp [unlines]
      rw [List.dropLast_append_of_ne_nil hne, List.dropLast_cons_of_ne_nil hne', Text.lines,
        cutLines_append_feed _ h.1.2.1 h.1.2.2]
      exact congrArg (line :: ·) (ih h.2)

/-- No line of a text has a feed. -/
theorem notMem_of_mem_lines {t line : Text} (h : line ∈ Text.lines t) : '\n' ∉ line :=
  notMem_of_mem_cutLines h

/-! ### Lines of bytes -/

/-- The bytes of other characters end no line. -/
theorem notMem_utf8EncodeChar {c : Char} (mark : Char) (hmark : mark.val.toNat ≤ 127)
    (h : c ≠ mark) :
    mark.toUInt8 ∉ String.utf8EncodeChar c := by
  rw [toUInt8_mem_utf8EncodeChar hmark]
  exact Ne.symm h

/-- A text starts with a feed exactly if its bytes do. The first byte of any other character is
not that of a feed. -/
theorem head?_encode_eq_feed_iff {t : Text} :
    (encode t).head? = some 10 ↔ t.head? = some '\n' := by
  cases t with
  | nil => simp [encode]
  | cons c t =>
    obtain ⟨byte, bytes, hbytes⟩ :=
      List.exists_cons_of_ne_nil (String.utf8EncodeChar_ne_nil (c := c))
    have hbyte : byte ∈ String.utf8EncodeChar c := hbytes ▸ List.mem_cons_self
    rw [show encode (c :: t) = String.utf8EncodeChar c ++ encode t from rfl, hbytes,
      List.cons_append, List.head?_cons, List.head?_cons, Option.some.injEq, Option.some.injEq]
    by_cases hc : c = '\n'
    · subst hc
      exact ⟨fun _ => rfl, fun _ => (List.cons.inj hbytes).1.symm⟩
    · have hother : (10 : UInt8) ∉ String.utf8EncodeChar c :=
        notMem_utf8EncodeChar '\n' (by decide) hc
      exact ⟨fun h => absurd (h ▸ hbyte) hother, fun h => absurd h hc⟩

/-- The lines of the bytes are the bytes of the lines: no byte of another character looks
like a feed or a carriage return. -/
theorem cutLines_encode (t : Text) : cutLines 13 10 (encode t) = (Text.lines t).map encode := by
  induction t with
  | nil => rfl
  | cons c t ih =>
    have hencode : encode (c :: t) = String.utf8EncodeChar c ++ encode t := rfl
    by_cases hfeed : c = '\n'
    · subst hfeed
      rw [Text.lines, cutLines_feed, List.map_cons, ← Text.lines, ← ih, hencode]
      exact cutLines_feed _
    · by_cases hcarriage : c = '\r'
      · subst hcarriage
        rw [hencode, show String.utf8EncodeChar '\r' = [13] from rfl, List.singleton_append,
          Text.lines, cutLines, cutLines, if_neg (by decide), if_neg hfeed, ih, Text.lines]
        simp only [true_and, head?_encode_eq_feed_iff]
        split
        · rfl
        · cases cutLines '\r' '\n' t <;> rfl
      · have hfeed' : (10 : UInt8) ∉ String.utf8EncodeChar c :=
          notMem_utf8EncodeChar '\n' (by decide) hfeed
        have hcarriage' : (13 : UInt8) ∉ String.utf8EncodeChar c :=
          notMem_utf8EncodeChar '\r' (by decide) hcarriage
        rw [hencode, cutLines_append hfeed' hcarriage' String.utf8EncodeChar_ne_nil, ih, Text.lines,
          Text.lines, cutLines, if_neg hfeed, if_neg fun h => hcarriage h.1]
        cases cutLines '\r' '\n' t with
        | nil => simp [encode]
        | cons line lines => simp [encode]

/-- A text that stops at the end of a line does so in bytes. -/
theorem EndsLine.encode {t : Text} (h : EndsLine '\n' t) : EndsLine 10 (encode t) := by
  rcases h with rfl | hlast
  · exact .inl rfl
  · obtain ⟨front, rfl⟩ := List.getLast?_eq_some_iff.mp hlast
    refine .inr ?_
    rw [encode_append]
    exact List.getLast?_concat

/-- With one line that is not UTF-8 the whole is not. The other lines may be what they like. -/
theorem decode?_eq_none_of_mem_cutLines {bytes line : Bytes} (hline : line ∈ cutLines 13 10 bytes)
    (h : decode? line = none) : decode? bytes = none := by
  rw [Option.eq_none_iff_forall_not_mem]
  intro t ht
  rw [decode?_eq_some_iff.mp ht, cutLines_encode] at hline
  obtain ⟨text, -, rfl⟩ := List.mem_map.mp hline
  rw [decode?_encode] at h
  cases h

/-- A carriage return behind bytes is one behind their text. It is a character of one byte, so it
is read the same way whether or not the bytes before it spell a text. -/
theorem decode?_concat_carriage (bytes : Bytes) :
    decode? (bytes ++ [13]) = (decode? bytes).map fun t => t ++ ['\r'] := by
  have hencode : ∀ t : Text, encode (t ++ ['\r']) = encode t ++ [13] := fun t =>
    encode_append t ['\r']
  cases hbytes : decode? bytes with
  | some t =>
    rw [decode?_eq_some_iff.mp hbytes, ← hencode, decode?_encode, Option.map_some]
  | none =>
    rw [Option.map_none, Option.eq_none_iff_forall_not_mem]
    intro t ht
    have hwhole := decode?_eq_some_iff.mp ht
    -- The last character has the last byte, so it is the carriage return itself.
    rcases List.eq_nil_or_concat t with rfl | ⟨front, c, rfl⟩
    · simp [encode] at hwhole
    · have hsplit : encode (front ++ [c]) = encode front ++ String.utf8EncodeChar c := by
        rw [encode_append]
        exact congrArg (encode front ++ ·) (List.flatMap_singleton _ c)
      rcases List.eq_nil_or_concat (String.utf8EncodeChar c) with hnil | ⟨init, byte, hlast⟩
      · exact String.utf8EncodeChar_ne_nil hnil
      rw [List.concat_eq_append] at hwhole hlast
      rw [hsplit, hlast, ← List.append_assoc] at hwhole
      obtain ⟨hfront, hbyte⟩ := List.append_inj' hwhole rfl
      have hmem : '\r'.toUInt8 ∈ String.utf8EncodeChar c := by
        rw [hlast, ← hbyte]
        exact List.mem_append_right _ List.mem_cons_self
      obtain rfl := (toUInt8_mem_utf8EncodeChar (by decide)).mp hmem
      have hcarriage : String.utf8EncodeChar '\r' = [] ++ [13] := rfl
      have hinit : init = [] := (List.append_inj' (hlast.symm.trans hcarriage) rfl).1
      rw [hinit, List.append_nil] at hfront
      rw [decode?_eq_some_iff.mpr hfront] at hbytes
      cases hbytes

/-! ### Pieces between marks -/

/-- A piece without the mark ends at the next mark. -/
theorem splitOn_append_cons {mark : Char} {piece : Text} (rest : Text) (h : mark ∉ piece) :
    splitOn mark (piece ++ mark :: rest) = piece :: splitOn mark rest := by
  induction piece with
  | nil => rw [List.nil_append, splitOn, if_pos rfl]
  | cons c piece ih =>
    rw [List.mem_cons, not_or] at h
    rw [List.cons_append, splitOn, if_neg (Ne.symm h.1), ih h.2]

/-- A text without the mark is one piece. -/
theorem splitOn_of_notMem {mark : Char} {t : Text} (h : mark ∉ t) : splitOn mark t = [t] := by
  induction t with
  | nil => rfl
  | cons c t ih =>
    rw [List.mem_cons, not_or] at h
    rw [splitOn, if_neg (Ne.symm h.1), ih h.2]

/-- Pieces that each start with a mark are cut before each of them. What stands in front of the
first mark is a piece of its own. -/
theorem splitOn_append_flatMap {mark : Char} {front : Text} {pieces : List Text}
    (hfront : mark ∉ front) (hpieces : ∀ piece ∈ pieces, mark ∉ piece) :
    splitOn mark (front ++ pieces.flatMap fun piece => mark :: piece) = front :: pieces := by
  induction pieces generalizing front with
  | nil => rw [List.flatMap_nil, List.append_nil, splitOn_of_notMem hfront]
  | cons piece pieces ih =>
    rw [List.forall_mem_cons] at hpieces
    rw [List.flatMap_cons, List.cons_append, splitOn_append_cons _ hfront,
      ih hpieces.1 hpieces.2]

/-- There is always a piece, be it an empty one. -/
theorem splitOn_ne_nil (mark : Char) (t : Text) : splitOn mark t ≠ [] := by
  cases t with
  | nil => simp [splitOn]
  | cons c t =>
    rw [splitOn]
    split
    · simp
    · split <;> simp

/-- A text is cut at each of its marks, whatever is before it. Before the mark there may be more
marks, so it is an equation between lists of pieces. -/
theorem splitOn_append_mark (mark : Char) (before rest : Text) :
    splitOn mark (before ++ mark :: rest) = splitOn mark before ++ splitOn mark rest := by
  induction before with
  | nil =>
    show splitOn mark (mark :: rest) = [] :: splitOn mark rest
    rw [splitOn, if_pos rfl]
  | cons c before ih =>
    rw [List.cons_append, splitOn, splitOn, ih]
    split
    · rw [List.cons_append]
    · cases hpieces : splitOn mark before with
      | nil => exact absurd hpieces (splitOn_ne_nil mark before)
      | cons piece pieces => rfl

/-- No piece has the mark in it, since a text is cut at each of them. The first piece may still
grow, which makes the second case. -/
theorem notMem_of_mem_splitOn {mark : Char} {t piece : Text} (h : piece ∈ splitOn mark t) :
    mark ∉ piece := by
  induction t generalizing piece with
  | nil =>
    rw [List.mem_singleton.mp h]
    exact List.not_mem_nil
  | cons c t ih =>
    rw [splitOn] at h
    split at h
    · rcases List.mem_cons.mp h with rfl | hlater
      · exact List.not_mem_nil
      · exact ih hlater
    · rename_i hc
      split at h
      · rw [List.mem_singleton.mp h, List.mem_singleton]
        exact fun e => hc e.symm
      · rename_i first later hsplit
        rw [hsplit] at ih
        rcases List.mem_cons.mp h with rfl | hlater
        · rw [List.mem_cons, not_or]
          exact ⟨fun e => hc e.symm, ih List.mem_cons_self⟩
        · exact ih (List.mem_cons_of_mem _ hlater)

/-- Lines that are written one after the other are the pieces between the feeds exactly if
no line has a feed. Nothing comes after the last one. -/
theorem splitOn_unlines_iff {lines : List Text} :
    splitOn '\n' (unlines lines) = lines ++ [[]] ↔ ∀ line ∈ lines, '\n' ∉ line := by
  constructor
  · intro h line hline
    refine notMem_of_mem_splitOn (t := unlines lines) ?_
    rw [h]
    exact List.mem_append_left _ hline
  · intro h
    induction lines with
    | nil => rfl
    | cons line rest ih =>
      rw [List.forall_mem_cons] at h
      rw [unlines_cons, splitOn_append_cons _ h.1, ih h.2, List.cons_append]

/-! ### Blanks at the ends -/

/-- Nothing is dropped from the front exactly if the first character stays. Further characters of
the class are safe behind it. -/
theorem dropWhile_eq_self_iff {p : Char → Bool} {t : Text} :
    t.dropWhile p = t ↔ ∀ c, t.head? = some c → p c = false := by
  cases t with
  | nil => simp
  | cons c t =>
    cases hc : p c with
    | false => simp [hc]
    | true =>
      have hlength := (List.dropWhile_suffix p (l := t)).length_le
      simp only [List.dropWhile_cons, hc, if_true, List.head?_cons, Option.some.injEq,
        forall_eq', Bool.true_eq_false, iff_false]
      intro h
      rw [h, List.length_cons] at hlength
      omega

/-- A text is trimmed exactly if it neither starts nor ends with a blank. Most lemmas on trimming
go through this one, as they need to know of two characters only. -/
theorem trim_eq_self_iff {t : Text} :
    trim t = t ↔ (∀ c, t.head? = some c → isBlank c = false) ∧
      ∀ c, t.getLast? = some c → isBlank c = false := by
  have hend : ∀ s : Text, dropEndWhile isBlank s = s ↔
      ∀ c, s.getLast? = some c → isBlank c = false := by
    intro s
    unfold dropEndWhile
    rw [List.reverse_eq_iff, dropWhile_eq_self_iff, List.head?_reverse]
  constructor
  · intro h
    have hle : (t.dropWhile isBlank).length ≤ t.length := (List.dropWhile_suffix _).length_le
    have hle' : t.length ≤ (t.dropWhile isBlank).length := by
      have hlength := congrArg List.length h
      have hsuffix := (List.dropWhile_suffix isBlank (l := (t.dropWhile isBlank).reverse)).length_le
      simp only [trim, trimWhile, dropEndWhile, List.length_reverse] at hlength hsuffix
      omega
    -- No blank at the start is lost, so the start is left as it is, and so is the end.
    have hstart : t.dropWhile isBlank = t :=
      (List.dropWhile_suffix _).eq_of_length (Nat.le_antisymm hle hle')
    rw [trim, trimWhile, hstart] at h
    exact ⟨dropWhile_eq_self_iff.mp hstart, (hend t).mp h⟩
  · rintro ⟨hstart, hlast⟩
    rw [trim, trimWhile, dropWhile_eq_self_iff.mpr hstart, (hend t).mpr hlast]

/-- What is dropped at both ends of a text is dropped around it, too. The text itself has to start
and end with characters that stay, or it would lose some of its own; the empty text may be there
as well. -/
theorem trimWhile_append {p : Char → Bool} {before t after : Text} (hbefore : before.all p = true)
    (hafter : after.all p = true) (hstart : ∀ c, t.head? = some c → p c = false)
    (hend : ∀ c, t.getLast? = some c → p c = false) : trimWhile p (before ++ t ++ after) = t := by
  have hbefore' := List.all_eq_true.mp hbefore
  have hafter' := List.all_eq_true.mp hafter
  cases t with
  | nil =>
    have hdrop : (after ++ []).dropWhile p = [].dropWhile p :=
      List.dropWhile_append_of_pos hafter'
    rw [List.append_nil, List.dropWhile_nil] at hdrop
    rw [trimWhile, List.append_nil, List.dropWhile_append_of_pos hbefore', hdrop]
    rfl
  | cons c t =>
    have hdrop : (c :: t ++ after).dropWhile p = c :: t ++ after :=
      List.dropWhile_cons_of_neg (by rw [hstart c rfl]; decide)
    have hreverse : (c :: t).reverse.dropWhile p = (c :: t).reverse := by
      rw [dropWhile_eq_self_iff, List.head?_reverse]
      exact hend
    rw [trimWhile, List.append_assoc, List.dropWhile_append_of_pos hbefore', hdrop, dropEndWhile,
      List.reverse_append, List.dropWhile_append_of_pos, hreverse, List.reverse_reverse]
    intro d hd
    exact hafter' d (List.mem_reverse.mp hd)

/-- Up to the first blank there is none. -/
theorem isBlank_eq_false_of_mem_takeWhile {t : Text} {c : Char}
    (h : c ∈ t.takeWhile fun c => !isBlank c) : isBlank c = false := by
  have hall := List.all_eq_true.mp (List.all_takeWhile (p := fun c => !isBlank c) (l := t)) c h
  simpa using hall

/-- No blank, said with truth values as the readers of words ask for it. -/
theorem all_not_isBlank {t : Text} (h : ∀ c ∈ t, isBlank c = false) :
    (t.all fun c => !isBlank c) = true := by
  rw [List.all_eq_true]
  intro c hc
  rw [h c hc]
  rfl

/-- What has been trimmed has no blanks to drop. What is dropped at the end does not uncover a
blank at the start. -/
theorem trim_trim (t : Text) : trim (trim t) = trim t := by
  have hstart : ∀ s : Text, ∀ c, (s.dropWhile isBlank).head? = some c → isBlank c = false := by
    intro s c hc
    have hnot := List.head?_dropWhile_not isBlank s
    rwa [hc] at hnot
  refine trim_eq_self_iff.mpr ⟨fun c hc => ?_, fun c hc => ?_⟩
  · -- Blanks dropped at the end leave the start as it is.
    have hprefix : trim t <+: t.dropWhile isBlank := by
      rw [← List.reverse_suffix, trim, trimWhile, dropEndWhile, List.reverse_reverse]
      exact List.dropWhile_suffix _
    obtain ⟨behind, hbehind⟩ := hprefix
    refine hstart t c ?_
    rw [← hbehind, List.head?_append, hc, Option.some_or]
  · rw [trim, trimWhile, dropEndWhile, List.getLast?_reverse] at hc
    exact hstart _ c hc

/-- A blank at the start is dropped. -/
theorem trim_cons_of_isBlank {c : Char} (t : Text) (h : isBlank c = true) :
    trim (c :: t) = trim t := by
  rw [trim, trimWhile, List.dropWhile_cons_of_pos h]
  rfl

/-- A blank at the end is dropped. -/
theorem trim_concat_of_isBlank (t : Text) {c : Char} (h : isBlank c = true) :
    trim (t ++ [c]) = trim t := by
  have hblank : [c].dropWhile isBlank = [] := List.dropWhile_cons_of_pos h
  rw [trim, trim, trimWhile, trimWhile, List.dropWhile_append, hblank]
  split
  · rename_i hempty
    rw [List.isEmpty_iff.mp hempty]
  · rw [dropEndWhile, dropEndWhile, List.reverse_concat, List.dropWhile_cons_of_pos h]

/-- Blanks at the start are dropped. -/
theorem trim_append_of_all_isBlank_left {before : Text} (h : before.all isBlank = true) (t : Text) :
    trim (before ++ t) = trim t := by
  induction before with
  | nil => rfl
  | cons c before ih =>
    rw [List.all_cons, Bool.and_eq_true] at h
    rw [List.cons_append, trim_cons_of_isBlank _ h.1, ih h.2]

/-- Blanks at the end are dropped. -/
theorem trim_append_of_all_isBlank_right (t : Text) {after : Text} (h : after.all isBlank = true) :
    trim (t ++ after) = trim t := by
  induction after generalizing t with
  | nil => rw [List.append_nil]
  | cons c after ih =>
    rw [List.all_cons, Bool.and_eq_true] at h
    rw [List.append_cons, ih _ h.2, trim_concat_of_isBlank t h.1]

/-- A trimmed text has only characters of the text. -/
theorem mem_of_mem_trim {t : Text} {c : Char} (h : c ∈ trim t) : c ∈ t := by
  rw [trim, trimWhile, dropEndWhile, List.mem_reverse] at h
  have hmem := (List.dropWhile_suffix isBlank).subset h
  exact (List.dropWhile_suffix isBlank).subset (List.mem_reverse.mp hmem)

/-- A text is what is left of it when it is trimmed, with blanks around it. So a line of a file
and its trimmed text differ in blanks only. -/
theorem exists_append_trim (t : Text) :
    ∃ before after, before.all isBlank = true ∧ after.all isBlank = true ∧
      t = before ++ (trim t ++ after) := by
  have hfront := List.takeWhile_append_dropWhile (p := isBlank) (l := t)
  have hback := List.takeWhile_append_dropWhile (p := isBlank) (l := (t.dropWhile isBlank).reverse)
  refine ⟨t.takeWhile isBlank, ((t.dropWhile isBlank).reverse.takeWhile isBlank).reverse,
    List.all_takeWhile, ?_, ?_⟩
  · rw [List.all_reverse]
    exact List.all_takeWhile
  · have hsame := congrArg List.reverse hback
    rw [List.reverse_append, List.reverse_reverse] at hsame
    show t = _ ++ (((t.dropWhile isBlank).reverse.dropWhile isBlank).reverse ++ _)
    rw [hsame, hfront]

/-- Nothing is left of a text exactly if it is blank, which is how blank lines of a file are
recognised. -/
theorem trim_eq_nil_iff {t : Text} : trim t = [] ↔ t.all isBlank = true := by
  constructor
  · intro h
    obtain ⟨before, after, hbefore, hafter, ht⟩ := exists_append_trim t
    rw [ht, h, List.nil_append, List.all_append, hbefore, hafter]
    rfl
  · intro h
    have hblank := trim_append_of_all_isBlank_right [] h
    rwa [List.nil_append] at hblank

end TaskGrammar.Text
