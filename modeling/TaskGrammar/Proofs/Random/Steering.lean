import Mathlib.Algebra.Group.Nat.Defs
import TaskGrammar.Proofs.Random.Draws

/-!
# `TaskGrammar.Proofs.Random.Steering`: making draws come out as wanted

A script is written word by word. `Draw.Gives` says that a computation uses up exactly the
words of a list and ends in a given result, whatever the script holds before and after them,
so the words of two computations one after the other are the words of both.

Every result of a draw has a word that leads to it, `Random.steer`: the least one that is
scaled to the result. It is never rejected, since its product with the bound is less than
the bound above a multiple of the size.

* `exists_gives_drawBelow64` / `exists_gives_drawIndex`: a word for every number below the
  bound.
* `exists_gives_drawAny` / `exists_gives_drawKept`: words for every element of a list. In
  the draw that goes on through a list, the element is kept by a zero and stays kept by a
  one for each later element.
-/

set_option autoImplicit false

namespace TaskGrammar

variable {α β : Type}

/-! ### Computations and the words that they use up -/

namespace Script

/-- A script that has handed out some words and goes on with the others. After the last
word it starts over. -/
def after (past ahead : List UInt64) : Script :=
  { words := past ++ ahead, position := past.length % (past ++ ahead).length }

/-- A script that is new has handed out nothing. -/
theorem ofWords_eq_after (words : List UInt64) : ofWords words = after [] words := by
  simp [ofWords, after]

/-- The next word is handed out, and the script does not start over as long as it has one. The
words that were handed out are kept, since they come again then. -/
theorem next_after (past : List UInt64) (word : UInt64) (ahead : List UInt64) :
    (after past (word :: ahead)).next = (word, after (past ++ [word]) ahead) := by
  have hposition : past.length % (past ++ word :: ahead).length = past.length :=
    Nat.mod_eq_of_lt (by simp)
  unfold after next
  rw [hposition]
  simp

end Script

/-- The computation uses up these words of a script and ends in this result. -/
def Draw.Gives (draw : Draw Script α) (words : List UInt64) (a : α) : Prop :=
  ∀ past ahead, draw.outcome (Script.after past (words ++ ahead))
    = (.ok a, Script.after (past ++ words) ahead)

namespace Draw.Gives

/-- A result at hand uses up no words. -/
protected theorem pure (a : α) : (pure a : Draw Script α).Gives [] a := by
  intro past ahead
  rw [outcome_pure, List.append_nil]
  rfl

/-- The second computation uses the words after those of the first. -/
protected theorem bind {draw : Draw Script α} {next : α → Draw Script β}
    {words words' : List UInt64} {a : α} {b : β} (h : draw.Gives words a)
    (h' : (next a).Gives words' b) :
    (draw >>= next).Gives (words ++ words') b := by
  intro past ahead
  rw [outcome_bind, List.append_assoc, h past (words' ++ ahead)]
  show (next a).outcome (Script.after (past ++ words) (words' ++ ahead)) = _
  rw [h', List.append_assoc]

/-- A script of the words makes the computation end in the result. -/
theorem outcome_ofWords {draw : Draw Script α} {words : List UInt64} {a : α}
    (h : draw.Gives words a) : (draw.outcome (Script.ofWords words)).1 = .ok a := by
  have hrun := h [] []
  rw [List.append_nil] at hrun
  rw [Script.ofWords_eq_after, hrun]

end Draw.Gives

namespace Random

/-! ### Numbers below a bound -/

/-- The least word that is scaled to a number below the bound. -/
def steer (size bound result : Nat) : Nat :=
  (result * size + bound - 1) / bound

section Steer

variable {size bound result : Nat}

/-- The product of the word and the bound reaches the wanted multiple of the size, and goes
beyond it by less than the bound. -/
theorem steer_mul_bounds (size result : Nat) (hbound : 0 < bound) :
    result * size ≤ steer size bound result * bound ∧
      steer size bound result * bound < result * size + bound := by
  have hdiv := Nat.div_add_mod (result * size + bound - 1) bound
  have hmod := Nat.mod_lt (result * size + bound - 1) hbound
  rw [Nat.mul_comm] at hdiv
  unfold steer
  omega

/-- It is a word: it is less than the size, since the bound is no more than the size. -/
theorem steer_lt (hresult : result < bound) (hbound : bound ≤ size) :
    steer size bound result < size := by
  obtain ⟨-, hupper⟩ := steer_mul_bounds size result
    (Nat.lt_of_le_of_lt (Nat.zero_le _) hresult)
  have hnext : (result + 1) * size ≤ bound * size := Nat.mul_le_mul_right size hresult
  rw [Nat.succ_mul, Nat.mul_comm bound] at hnext
  refine Nat.lt_of_mul_lt_mul_right (a := bound) ?_
  omega

/-- It is scaled to the wanted number. -/
theorem steer_mul_div (hresult : result < bound) (hbound : bound ≤ size) :
    steer size bound result * bound / size = result := by
  obtain ⟨hlower, hupper⟩ := steer_mul_bounds size result
    (Nat.lt_of_le_of_lt (Nat.zero_le _) hresult)
  refine Nat.div_eq_of_lt_le hlower ?_
  rw [Nat.succ_mul]
  omega

/-- It is accepted: the zone holds at least the numbers below the bound. -/
theorem accepts_steer {bits : Nat} (hsize : size = 2 ^ bits) (hresult : result < bound)
    (hbound : bound < size) : accepts size bound (steer size bound result) = true := by
  subst hsize
  have hpos : 0 < bound := Nat.lt_of_le_of_lt (Nat.zero_le _) hresult
  obtain ⟨hlower, hupper⟩ := steer_mul_bounds (2 ^ bits) result hpos
  have hmod : steer (2 ^ bits) bound result * bound % 2 ^ bits
      = steer (2 ^ bits) bound result * bound - result * 2 ^ bits := by
    have hdiv := steer_mul_div hresult (Nat.le_of_lt hbound)
    have h := Nat.div_add_mod (steer (2 ^ bits) bound result * bound) (2 ^ bits)
    rw [hdiv, Nat.mul_comm] at h
    omega
  -- The zone is at least the bound, because it is the bound shifted to the left.
  have hshift : 1 ≤ 2 ^ bits >>> (Nat.log2 bound + 1) := by
    rw [Nat.shiftRight_eq_div_pow, Nat.one_le_div_iff (Nat.two_pow_pos _)]
    exact Nat.pow_le_pow_right (by decide) ((Nat.log2_lt (Nat.ne_of_gt hpos)).mpr hbound)
  have hzone : bound - 1 ≤ zone (2 ^ bits) bound :=
    Nat.sub_le_sub_right (Nat.le_mul_of_pos_right bound hshift) 1
  unfold accepts
  rw [hmod, decide_eq_true_iff]
  omega

end Steer

/-- A draw that is offered the word for a result uses up this word and has the result. No other
word is tried, since the first one is accepted. -/
theorem gives_drawScaled {size bits bound : Nat} (hsize : size = 2 ^ bits) (h : 0 < bound)
    (hbound : bound < size) (result : Fin bound) {next : Script → Fin size × Script}
    {word : UInt64} {drawn : Fin size} (hdrawn : drawn.val = steer size bound result)
    (hnext : ∀ past ahead,
      next (Script.after past (word :: ahead)) = (drawn, Script.after (past ++ [word]) ahead)) :
    (drawScaled size bound h next).Gives [word] result := by
  have haccepts : accepts size bound drawn = true := by
    rw [hdrawn]
    exact accepts_steer hsize result.isLt hbound
  have hresult : scale size bound h drawn = result := by
    refine Fin.ext ?_
    show drawn.val * bound / size = result.val
    rw [hdrawn]
    exact steer_mul_div result.isLt (Nat.le_of_lt hbound)
  intro past ahead
  have hpatience : RandomSource.patience (Script.after past (word :: ahead))
      = past.length + ahead.length + 1 := by
    show (past ++ word :: ahead).length = _
    rw [List.length_append, List.length_cons]
    omega
  rw [outcome_drawScaled, List.singleton_append, hpatience, scaleFirst, hnext, if_pos haccepts,
    hresult]

/-- For every number below the bound there is a word that leads to it. It is the same word
whatever stands before and behind it in the script. -/
theorem exists_gives_drawBelow64 {bound : Nat} (h : 0 < bound) (hbound : bound < UInt64.size)
    (result : Fin bound) :
    ∃ word, (drawBelow64 bound h : Draw Script (Fin bound)).Gives [word] result := by
  obtain ⟨word, hword⟩ : ∃ word : UInt64, word.toNat = steer UInt64.size bound result :=
    ⟨_, UInt64.toNat_ofNat_of_lt' (steer_lt result.isLt (Nat.le_of_lt hbound))⟩
  have hsize : UInt64.size = 2 ^ 64 := rfl
  have hfin : word.toFin.val = steer UInt64.size bound result := hword
  refine ⟨word, gives_drawScaled hsize h hbound result hfin fun past ahead => ?_⟩
  show ((Script.after past _).next.1.toFin, (Script.after past _).next.2) = _
  rw [Script.next_after]

/-- The same for words of 32 bits, which are the low halves of those of the script. -/
theorem exists_gives_drawBelow32 {bound : Nat} (h : 0 < bound) (hbound : bound < UInt32.size)
    (result : Fin bound) :
    ∃ word, (drawBelow32 bound h : Draw Script (Fin bound)).Gives [word] result := by
  have hlt := steer_lt result.isLt (Nat.le_of_lt hbound)
  obtain ⟨word, hword⟩ : ∃ word : UInt64, word.toNat = steer UInt32.size bound result :=
    ⟨_, UInt64.toNat_ofNat_of_lt' (Nat.lt_trans hlt (by decide))⟩
  have hsize : UInt32.size = 2 ^ 32 := rfl
  -- The low half of the word is the word itself, as it is short enough.
  have hlow : word.toUInt32.toFin.val = steer UInt32.size bound result := by
    show word.toUInt32.toNat = _
    rw [UInt64.toNat_toUInt32, hword]
    exact Nat.mod_eq_of_lt hlt
  refine ⟨word, gives_drawScaled hsize h hbound result hlow fun past ahead => ?_⟩
  show ((Script.after past _).next.1.toUInt32.toFin, (Script.after past _).next.2) = _
  rw [Script.next_after]

/-- There is a word for every position in a list, from short words or from long ones. Which of
them is drawn from depends on the length of the list. -/
theorem exists_gives_drawIndex {length : Nat} (h : 0 < length) (hlength : length < UInt64.size)
    (position : Fin length) :
    ∃ word, (drawIndex length h : Draw Script (Fin length)).Gives [word] position := by
  unfold drawIndex
  split
  · rename_i hshort
    exact exists_gives_drawBelow32 h hshort position
  · exact exists_gives_drawBelow64 h hlength position

/-! ### Elements of a list -/

/-- Every element can be drawn by one draw. -/
theorem exists_gives_drawAny {items : List α} (hlength : items.length < UInt64.size) {item : α}
    (h : item ∈ items) :
    ∃ words, (drawAny items : Draw Script (Option α)).Gives words (some item) := by
  cases items with
  | nil => cases h
  | cons first rest =>
    obtain ⟨position, hposition, rfl⟩ := List.mem_iff_getElem.mp h
    obtain ⟨word, hword⟩ :=
      exists_gives_drawIndex (Nat.succ_pos _) hlength (⟨position, hposition⟩ : Fin _)
    exact ⟨[word] ++ [], hword.bind (.pure _)⟩

/-- An element that is kept can stay kept to the end: each draw is below two or more, so it
can be a one. -/
theorem exists_gives_drawKeptFrom_some {seen : Nat} (hseen : 0 < seen) (kept : α) (items : List α)
    (hlength : seen + items.length < UInt64.size) :
    ∃ words, (drawKeptFrom seen (some kept) items : Draw Script (Option α)).Gives words
      (some kept) := by
  induction items generalizing seen with
  | nil => exact ⟨[], .pure _⟩
  | cons item rest ih =>
    rw [List.length_cons] at hlength
    have hone : 1 < seen + 1 := by omega
    obtain ⟨word, hword⟩ :=
      exists_gives_drawIndex (Nat.succ_pos seen) (by omega) (⟨1, hone⟩ : Fin (seen + 1))
    obtain ⟨words, hwords⟩ := ih (Nat.succ_pos seen) (by omega)
    exact ⟨[word] ++ words, hword.bind hwords⟩

/-- Each element of the list can be kept and stay kept. The draws before it do not matter. -/
theorem exists_gives_drawKeptFrom {seen : Nat} (kept : Option α) {items : List α}
    (hlength : seen + items.length < UInt64.size) {item : α} (h : item ∈ items) :
    ∃ words, (drawKeptFrom seen kept items : Draw Script (Option α)).Gives words (some item) := by
  induction items generalizing seen kept with
  | nil => cases h
  | cons first rest ih =>
    rw [List.length_cons] at hlength
    have hzero : 0 < seen + 1 := Nat.succ_pos seen
    obtain ⟨word, hword⟩ :=
      exists_gives_drawIndex hzero (by omega) (⟨0, hzero⟩ : Fin (seen + 1))
    -- Zero keeps the first element; then it stays, or a later one is kept.
    have hrest : ∃ words, (drawKeptFrom (seen + 1) (some first) rest :
        Draw Script (Option α)).Gives words (some item) := by
      rcases List.mem_cons.mp h with rfl | hlater
      · exact exists_gives_drawKeptFrom_some (Nat.succ_pos _) item rest (by omega)
      · exact ih (some first) (by omega) hlater
    obtain ⟨words, hwords⟩ := hrest
    exact ⟨[word] ++ words, hword.bind hwords⟩

/-- Every element can be drawn by one draw for each. -/
theorem exists_gives_drawKept {items : List α} (hlength : items.length < UInt64.size) {item : α}
    (h : item ∈ items) :
    ∃ words, (drawKept items : Draw Script (Option α)).Gives words (some item) := by
  refine exists_gives_drawKeptFrom none ?_ h
  omega

end Random

end TaskGrammar
