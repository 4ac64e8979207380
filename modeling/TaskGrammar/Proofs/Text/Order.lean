import TaskGrammar.Proofs.Text.Positions

/-!
# `TaskGrammar.Proofs.Text.Order`: the order of texts

`Text.le` compares characters by their codes, without a look at the bytes that they take. A system
that knows names as bytes puts them in order byte by byte, and characters take from one to four of
these. The two orders are the same: UTF-8 gives the longer forms the greater first bytes, and
within the forms of one length it writes the digits of the code, the highest first.

* `utf8EncodeChar_append_lt`: the first character that differs decides, whatever follows.
* `le_iff_encode_le`: texts are ordered as their bytes are.
* `le_trans`, `le_total`, `le_antisymm`: the laws of the order, from those of bytes.
* `pairwise_mergeSort` / `eq_of_perm`: sorted texts are in order, and only one order is theirs.
-/

set_option autoImplicit false

namespace TaskGrammar

namespace Text

/-! ### Bytes -/

/-- The codes of characters end where those of UTF-8 with four bytes do. -/
theorem toNat_val_lt (c : Char) : c.val.toNat < 0x110000 := by
  rcases c.valid with h | h
  · have hlow : c.val.toNat < 0xd800 := h
    omega
  · exact h.2

/-- A character with a smaller code has the smaller bytes, and no more of them are looked at. -/
theorem utf8EncodeChar_append_lt {c d : Char} (h : c.toNat < d.toNat) (s t : Bytes) :
    String.utf8EncodeChar c ++ s < String.utf8EncodeChar d ++ t := by
  have hd := toNat_val_lt d
  change c.val.toNat < d.val.toNat at h
  unfold String.utf8EncodeChar
  generalize c.val.toNat = m at *
  generalize d.val.toNat = n at *
  dsimp only
  -- One goal for each pair of lengths. The bytes are digits of the codes, with a mark that says
  -- where in a form they stand.
  repeat' split
  all_goals
    simp only [List.cons_append, List.nil_append, List.cons_lt_cons_iff, UInt8.lt_iff_toNat_lt,
      ← UInt8.toNat_inj, UInt8.toNat_ofNat']
    simp (disch := omega) only [Nat.mod_eq_of_lt]
    omega

/-- What bytes have in common at their beginning does not count. -/
theorem append_le_append_iff (start s t : Bytes) : start ++ s ≤ start ++ t ↔ s ≤ t := by
  induction start with
  | nil => rfl
  | cons byte start ih => simp [List.cons_le_cons_iff, ih]

/-- Texts with the same bytes are the same. -/
theorem encode_injective {s t : Text} (h : encode s = encode t) : s = t := by
  have hdecode := congrArg decode? h
  rw [decode?_encode, decode?_encode] at hdecode
  exact Option.some.inj hdecode

/-! ### Texts -/

/-- Texts are ordered as their bytes are. The order is by the codes of the characters, and the
forms of UTF-8 are ordered in the same way; so the laws of the order of bytes hold for texts. -/
theorem le_iff_encode_le {s t : Text} : le s t = true ↔ encode s ≤ encode t := by
  induction s generalizing t with
  | nil => exact iff_of_true rfl (List.nil_le _)
  | cons a s ih =>
    cases t with
    | nil =>
      refine iff_of_false Bool.false_ne_true fun h => ?_
      cases encode_injective (t := []) (List.le_nil.mp h)
    | cons b t =>
      show le (a :: s) (b :: t) = true ↔
        String.utf8EncodeChar a ++ encode s ≤ String.utf8EncodeChar b ++ encode t
      rw [le]
      split
      · rename_i hab
        rw [hab, append_le_append_iff]
        exact ih
      · rename_i hab
        rw [decide_eq_true_eq]
        have hcodes : a.toNat ≠ b.toNat := fun h => hab (Char.toNat_inj.mp h)
        rcases Nat.lt_or_gt_of_ne hcodes with hlt | hlt
        · exact iff_of_true hlt (List.le_of_lt (utf8EncodeChar_append_lt hlt _ _))
        · exact iff_of_false (Nat.lt_asymm hlt) fun h => h (utf8EncodeChar_append_lt hlt _ _)

/-- The order of texts is transitive, as the order of their bytes is. -/
protected theorem le_trans {s t u : Text} (hst : le s t = true) (htu : le t u = true) :
    le s u = true :=
  le_iff_encode_le.mpr (List.le_trans (le_iff_encode_le.mp hst) (le_iff_encode_le.mp htu))

/-- Of two texts one comes before the other, or both have the same place. -/
protected theorem le_total (s t : Text) : le s t = true ∨ le t s = true := by
  rw [le_iff_encode_le, le_iff_encode_le]
  exact List.le_total _ _

/-- Two texts of the same place are the same, since the bytes give the text. -/
protected theorem le_antisymm {s t : Text} (hst : le s t = true) (hts : le t s = true) : s = t :=
  encode_injective (List.le_antisymm (le_iff_encode_le.mp hst) (le_iff_encode_le.mp hts))

/-- Sorted texts are in order. The sort needs that the comparison is transitive and total, and it
is both. -/
theorem pairwise_mergeSort (texts : List Text) :
    (texts.mergeSort le).Pairwise fun s t => encode s ≤ encode t := by
  have htotal : ∀ s t : Text, (le s t || le t s) = true := by
    intro s t
    rw [Bool.or_eq_true]
    exact Text.le_total s t
  have htrans : ∀ s t u : Text, le s t = true → le t u = true → le s u = true :=
    fun _ _ _ => Text.le_trans
  have hsorted := List.pairwise_mergeSort htrans htotal texts
  exact hsorted.imp le_iff_encode_le.mp

/-- There is one way only to put texts in order. Two texts of the same place are the same, so
equal neighbours do not matter. -/
theorem eq_of_perm {texts others : List Text} (h : texts.Perm others)
    (htexts : texts.Pairwise fun s t => encode s ≤ encode t)
    (hothers : others.Pairwise fun s t => encode s ≤ encode t) : texts = others :=
  h.eq_of_pairwise
    (fun _ _ _ _ hst hts =>
      Text.le_antisymm (le_iff_encode_le.mpr hst) (le_iff_encode_le.mpr hts))
    htexts hothers

end Text

end TaskGrammar
