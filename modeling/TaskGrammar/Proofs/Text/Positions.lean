import TaskGrammar.Text.Basic

/-!
# `TaskGrammar.Proofs.Text.Positions`: byte positions in a text

Positions count bytes, and characters may take several of them. A position at which a
character starts, or at which the text ends, is the length of some beginning of the text.
For such positions the operations on bytes and those on characters agree:

* `dropBytes?_eq_some_iff`: the positions from which a text can be read are the lengths of
  its beginnings.
* `slice?_append`: what is between two such positions is cut out.
* `skipWhile?_append` / `skipBlanks?_append`: a cursor goes over characters of a class.
* `drop_encode_append`: the same positions count the bytes of the encoding.
* `toUInt8_mem_utf8EncodeChar`: an ASCII byte comes up in the encoding of its own character
  only.
-/

set_option autoImplicit false

namespace TaskGrammar

namespace Text

/-- Texts one after the other are as long as both. -/
theorem utf8Length_append (before after : Text) :
    utf8Length (before ++ after) = utf8Length before + utf8Length after := by
  induction before with
  | nil => simp [utf8Length]
  | cons c before ih =>
    show c.utf8Size + utf8Length (before ++ after) = _
    rw [ih, utf8Length, Nat.add_assoc]

/-- Each character takes a byte at least. -/
theorem length_le_utf8Length (t : Text) : t.length ≤ utf8Length t := by
  induction t with
  | nil => exact Nat.le_refl 0
  | cons c t ih =>
    have hpos := Char.utf8Size_pos c
    rw [List.length_cons, utf8Length]
    omega

/-- Only the empty text takes no bytes. -/
theorem utf8Length_pos_iff {t : Text} : 0 < utf8Length t ↔ t ≠ [] := by
  have hlength := length_le_utf8Length t
  constructor
  · rintro h rfl
    exact absurd h (Nat.lt_irrefl 0)
  · intro h
    have hpos := List.length_pos_iff.mpr h
    omega

/-! ### Slices -/

/-- Past the bytes of a character, a text is read from the next one on. -/
theorem dropBytes?_cons_add (c : Char) (t : Text) (n : Nat) :
    dropBytes? (c :: t) (c.utf8Size + n) = dropBytes? t n := by
  obtain ⟨m, hm⟩ := Nat.exists_eq_add_of_lt (Char.utf8Size_pos c)
  have hsucc : c.utf8Size + n = (m + n) + 1 := by omega
  rw [hsucc, dropBytes?, if_pos (by omega)]
  congr 1
  omega

/-- Past a beginning of a text, what follows it is left. The position is that of the end of the
beginning in bytes, which is between two characters. -/
@[simp]
theorem dropBytes?_append (before after : Text) :
    dropBytes? (before ++ after) (utf8Length before) = some after := by
  induction before with
  | nil => cases after <;> rfl
  | cons c before ih =>
    rw [List.cons_append, utf8Length, dropBytes?_cons_add, ih]

/-- A text can be read exactly from where one of its beginnings ends. Any other position is inside
a character or behind the text, and the result is `none` there. -/
theorem dropBytes?_eq_some_iff {t after : Text} {cursor : Nat} :
    dropBytes? t cursor = some after ↔
      ∃ before, before ++ after = t ∧ utf8Length before = cursor := by
  constructor
  · intro h
    induction t generalizing cursor with
    | nil =>
      cases cursor with
      | zero => exact ⟨[], by simpa [dropBytes?] using h.symm, rfl⟩
      | succ n => simp [dropBytes?] at h
    | cons c t ih =>
      cases cursor with
      | zero => exact ⟨[], by simpa [dropBytes?] using h.symm, rfl⟩
      | succ n =>
        rw [dropBytes?] at h
        split at h
        · rename_i hle
          obtain ⟨before, rfl, hbefore⟩ := ih h
          exact ⟨c :: before, rfl, by rw [utf8Length]; omega⟩
        · simp at h
  · rintro ⟨before, rfl, rfl⟩
    exact dropBytes?_append before after

/-- A character is taken whole. -/
theorem takeBytes?_cons_add (c : Char) (t : Text) (n : Nat) :
    takeBytes? (c :: t) (c.utf8Size + n) = (takeBytes? t n).map (c :: ·) := by
  obtain ⟨m, hm⟩ := Nat.exists_eq_add_of_lt (Char.utf8Size_pos c)
  have hsucc : c.utf8Size + n = (m + n) + 1 := by omega
  rw [hsucc, takeBytes?, if_pos (by omega)]
  congr 2
  omega

/-- A beginning of a text is taken. -/
@[simp]
theorem takeBytes?_append (before after : Text) :
    takeBytes? (before ++ after) (utf8Length before) = some before := by
  induction before with
  | nil => cases after <;> rfl
  | cons c before ih => rw [List.cons_append, utf8Length, takeBytes?_cons_add, ih, Option.map_some]

/-- The part between two beginnings is cut out. Both positions are between characters then, so the
checks pass. -/
theorem slice?_append (before middle after : Text) :
    slice? (before ++ (middle ++ after)) (utf8Length before) (utf8Length (before ++ middle))
      = some middle := by
  rw [slice?, utf8Length_append, if_pos (Nat.le_add_right _ _), dropBytes?_append,
    Option.bind_some, Nat.add_sub_cancel_left, takeBytes?_append]

/-- All that follows a beginning is cut out. -/
theorem slice?_append_utf8Length (before after : Text) :
    slice? (before ++ after) (utf8Length before) (utf8Length (before ++ after)) = some after := by
  have h := slice?_append before after []
  rwa [List.append_nil] at h

/-! ### Cursors that go over characters -/

/-- What satisfies `p`, up to something that does not, is read whole. This is the form in which a
scanner reads a class of characters as far as it goes. -/
theorem takeWhile_append_of_head {p : Char → Bool} {body rest : Text}
    (hbody : body.all p = true) (hrest : ∀ c, rest.head? = some c → p c = false) :
    (body ++ rest).takeWhile p = body ∧ (body ++ rest).dropWhile p = rest := by
  rw [List.all_eq_true] at hbody
  rw [List.takeWhile_append_of_pos hbody, List.dropWhile_append_of_pos hbody]
  cases rest with
  | nil => simp
  | cons c rest =>
    have hc : ¬ p c = true := by simp [hrest c rfl]
    rw [List.takeWhile_cons_of_neg hc, List.dropWhile_cons_of_neg hc, List.append_nil]
    exact ⟨rfl, rfl⟩

/-- The same for a character that is known to end what is read. -/
theorem takeWhile_append_cons {p : Char → Bool} {body : Text} {c : Char} (rest : Text)
    (hbody : body.all p = true) (hc : p c = false) :
    (body ++ c :: rest).takeWhile p = body ∧ (body ++ c :: rest).dropWhile p = c :: rest := by
  refine takeWhile_append_of_head hbody fun d hd => ?_
  rw [← Option.some.inj hd, hc]

/-- A cursor at the end of one part goes over the characters at the start of the next one. It
stands between two characters afterwards, so it can be used again. -/
theorem skipWhile?_append (p : Char → Bool) (before after : Text) :
    skipWhile? p (before ++ after) (utf8Length before)
      = some (utf8Length (before ++ after.takeWhile p)) := by
  rw [skipWhile?, slice?_append_utf8Length, Option.map_some, utf8Length_append]

/-- A cursor goes over blanks in the same way, and stays where it is at the end of the text. -/
theorem skipBlanks?_append (before after : Text) :
    skipBlanks? (before ++ after) (utf8Length before)
      = some (utf8Length (before ++ after.takeWhile isBlank)) := by
  cases after with
  | nil =>
    -- The cursor is at the end, and there is nothing to go over.
    rw [List.append_nil, skipBlanks?, if_pos (Nat.le_refl _), List.takeWhile_nil, List.append_nil]
  | cons c after =>
    have hpos : 0 < utf8Length (c :: after) := utf8Length_pos_iff.mpr (List.cons_ne_nil c after)
    rw [skipBlanks?, if_neg (by rw [utf8Length_append]; omega), dropBytes?_append,
      Option.map_some, utf8Length_append]

/-! ### The bytes of the encoding -/

/-- The bytes of texts one after the other. -/
theorem encode_append (before after : Text) :
    encode (before ++ after) = encode before ++ encode after :=
  List.flatMap_append

/-- A text has as many bytes as its characters take. -/
theorem length_encode (t : Text) : (encode t).length = utf8Length t := by
  induction t with
  | nil => rfl
  | cons c t ih =>
    show (String.utf8EncodeChar c ++ encode t).length = _
    rw [List.length_append, String.length_utf8EncodeChar, ih, utf8Length]

/-- To drop the bytes of a first part leaves those of the second one. -/
theorem drop_encode_append (before after : Text) :
    (encode (before ++ after)).drop (utf8Length before) = encode after := by
  rw [encode_append, ← length_encode, List.drop_left]

/-- Outside ASCII every byte of a character is above ASCII. There is a case for each length of the
encoding. -/
theorem lt_toNat_of_mem_utf8EncodeChar {c : Char} (h : 127 < c.val.toNat) {byte : UInt8}
    (hbyte : byte ∈ String.utf8EncodeChar c) : 127 < byte.toNat := by
  unfold String.utf8EncodeChar at hbyte
  rw [if_neg (Nat.not_le.mpr h)] at hbyte
  split at hbyte
  · simp only [List.mem_cons, List.not_mem_nil, or_false] at hbyte
    rcases hbyte with rfl | rfl <;> rw [UInt8.toNat_ofNat'] <;> omega
  · split at hbyte
    · simp only [List.mem_cons, List.not_mem_nil, or_false] at hbyte
      rcases hbyte with rfl | rfl | rfl <;> rw [UInt8.toNat_ofNat'] <;> omega
    · simp only [List.mem_cons, List.not_mem_nil, or_false] at hbyte
      rcases hbyte with rfl | rfl | rfl | rfl <;> rw [UInt8.toNat_ofNat'] <;> omega

/-- The byte of an ASCII character is in the encoding of no other character. So braces, bars and
line breaks can be searched for in the bytes of a text. -/
theorem toUInt8_mem_utf8EncodeChar {mark c : Char} (hmark : mark.val.toNat ≤ 127) :
    mark.toUInt8 ∈ String.utf8EncodeChar c ↔ mark = c := by
  have hbyte : ∀ {d : Char}, d.val.toNat ≤ 127 → d.toUInt8.toNat = d.val.toNat := by
    intro d hd
    rw [Char.toUInt8, UInt32.toNat_toUInt8]
    exact Nat.mod_eq_of_lt (by omega)
  by_cases hc : c.val.toNat ≤ 127
  · have hsize : c.utf8Size = 1 := Char.utf8Size_eq_one_iff.mpr (UInt32.le_iff_toNat_le.mpr hc)
    rw [String.utf8EncodeChar_eq_singleton hsize, List.mem_singleton]
    constructor
    · intro h
      have hnat := congrArg UInt8.toNat h
      rw [hbyte hmark, show c.val.toUInt8 = c.toUInt8 from rfl, hbyte hc] at hnat
      exact Char.ext (UInt32.toNat_inj.mp hnat)
    · rintro rfl
      rfl
  · constructor
    · intro h
      have hlt := lt_toNat_of_mem_utf8EncodeChar (Nat.lt_of_not_le hc) h
      rw [hbyte hmark] at hlt
      omega
    · rintro rfl
      exact absurd hmark hc

end Text

end TaskGrammar
