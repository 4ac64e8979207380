import Mathlib.Algebra.BigOperators.Fin
import Mathlib.Data.Fintype.BigOperators
import Mathlib.Data.Fintype.Pi
import Mathlib.Data.List.FinRange
import Mathlib.Data.Nat.Factorial.BigOperators
import TaskGrammar.Proofs.Random.Steering

/-!
# `TaskGrammar.Proofs.Random.Rolls`: what the draws of a pass decide

A pass through a list draws once for each element, below one for the first, below two for
the second, and so on; an element is kept when its draw gives zero, until a later draw gives
zero. So the results of the draws, `Rolls`, decide alone which element is kept at the end, and
how they come out does not depend on the elements.

* `drawKept_eq_roll`: the pass makes all its draws and keeps the element at the last zero.
* `lastZero_eq_some_iff`: where the last zero is, said of the draws one by one.
* `card_rolls` / `card_lastZero`: of the `n!` ways in which `n` draws can come out, `(n - 1)!`
  have the last zero at any given place. Before the place all results are free, at it only zero
  fits, and behind it zero alone does not.
* `card_kept`: so each element of a list is kept by the same number of them.
* `exists_gives_roll`: and there are random words for each.
-/

set_option autoImplicit false

namespace TaskGrammar.Random

variable {α β : Type}

/-- The results of draws, the first below one, the second below two, and so on. -/
abbrev Rolls (count : Nat) : Type :=
  (place : Fin count) → Fin (place.val + 1)

/-- The results of some draws and of the next one. -/
def Rolls.snoc {count : Nat} (before : Rolls count) (last : Fin (count + 1)) : Rolls (count + 1) :=
  Fin.snoc before last

section Draws

variable {σ : Type} [RandomSource σ]

/-- Makes the draws one after the other. -/
def roll : (count : Nat) → Draw σ (Rolls count)
  | 0 => pure fun place => place.elim0
  | count + 1 => do
    let before ← roll count
    let last ← drawIndex (count + 1) (Nat.succ_pos _)
    pure (before.snoc last)

end Draws

/-- The place of the last zero. -/
def lastZero : {count : Nat} → Rolls count → Option (Fin count)
  | 0, _ => none
  | count + 1, rolls =>
    if (rolls (Fin.last count)).val = 0 then some (Fin.last count)
    else (lastZero (Fin.init rolls)).map Fin.castSucc

/-- The element at the last zero. -/
def kept {count : Nat} (items : List α) (rolls : Rolls count) : Option α :=
  (lastZero rolls).bind fun place => items[place.val]?

/-! ### The last zero -/

/-- One more draw is the last zero if it is zero, and else the last zero is where it was. -/
theorem lastZero_snoc {count : Nat} (before : Rolls count) (last : Fin (count + 1)) :
    lastZero (before.snoc last)
      = if last.val = 0 then some (Fin.last count) else (lastZero before).map Fin.castSucc := by
  rw [lastZero, Rolls.snoc, Fin.snoc_last, Fin.init_snoc]

/-- The last zero is a zero, and behind it there is none. The definition goes from the last place
to the first, and so does the induction. -/
theorem lastZero_eq_some_iff {count : Nat} {rolls : Rolls count} {place : Fin count} :
    lastZero rolls = some place ↔
      (rolls place).val = 0 ∧ ∀ later, place < later → (rolls later).val ≠ 0 := by
  induction count with
  | zero => exact place.elim0
  | succ count ih =>
    rw [lastZero]
    cases place using Fin.lastCases with
    | last =>
      -- Nothing is behind the last place, and no other place is it.
      have hlater : ∀ later, ¬ Fin.last count < later := fun later h => by
        exact absurd (Fin.le_last later) (not_le.mpr h)
      split
      · rename_i hzero
        simp [hzero, hlater]
      · rename_i hzero
        simp [hzero]
    | cast place =>
      have hne : Fin.last count ≠ place.castSucc := (Fin.castSucc_lt_last place).ne'
      split
      · rename_i hzero
        simp only [Option.some.injEq, hne, false_iff, not_and]
        exact fun _ hall => hall (Fin.last count) (Fin.castSucc_lt_last place) hzero
      · rename_i hzero
        rw [Option.map_eq_some_iff]
        simp only [Fin.castSucc_inj, exists_eq_right]
        rw [ih, Fin.forall_fin_succ']
        simp [Fin.init, hzero, Fin.castSucc_lt_last]

/-- The first draw is below one, so there is a zero. With this a list that has elements always has
one that is kept. -/
theorem isSome_lastZero {count : Nat} (hcount : 0 < count) (rolls : Rolls count) :
    (lastZero rolls).isSome := by
  induction count with
  | zero => cases hcount
  | succ count ih =>
    rw [lastZero]
    split
    · rfl
    · rename_i hzero
      rw [Option.isSome_map]
      refine ih (Nat.pos_of_ne_zero fun hnone => hzero ?_) _
      subst hnone
      exact Nat.lt_one_iff.mp (rolls (Fin.last 0)).isLt

/-! ### How many ways there are -/

/-- There are `n!` ways in which `n` draws can come out: each is independent of the others and has
one result more than the one before. -/
theorem card_rolls (count : Nat) : Fintype.card (Rolls count) = count.factorial := by
  rw [Fintype.card_pi]
  simp only [Fintype.card_fin]
  rw [Fin.prod_univ_eq_prod_range (fun place => place + 1) count,
    Finset.prod_range_add_one_eq_factorial]

/-- How many results a draw can have if the last zero is to be at a place. -/
def choicesFor (place draw : Nat) : Nat :=
  if draw < place then draw + 1 else if draw = place then 1 else draw

/-- What is lost at the place, where only zero fits, is what later draws lack. The draws before
the place are free, and those behind it must not be zero. -/
theorem prod_choicesFor {count place : Nat} (h : place < count) :
    ∏ draw ∈ Finset.range count, choicesFor place draw = (count - 1).factorial := by
  induction count, h using Nat.le_induction with
  | base =>
    have hbefore : ∀ draw ∈ Finset.range place, choicesFor place draw = draw + 1 :=
      fun draw hdraw => if_pos (Finset.mem_range.mp hdraw)
    rw [Finset.prod_range_succ, Finset.prod_congr rfl hbefore,
      Finset.prod_range_add_one_eq_factorial]
    simp [choicesFor]
  | succ count hcount ih =>
    obtain ⟨before, rfl⟩ := Nat.exists_eq_succ_of_ne_zero (Nat.ne_of_gt (Nat.zero_lt_of_lt hcount))
    have hbehind : choicesFor place (before + 1) = before + 1 := by
      unfold choicesFor
      rw [if_neg (by omega), if_neg (by omega)]
    rw [Finset.prod_range_succ, ih, hbehind]
    exact (Nat.mul_comm _ _).trans (Nat.factorial_succ before).symm

/-- No place of the last zero is more frequent than another. The draws are made apart from each
other, so their numbers of choices are multiplied. -/
theorem card_lastZero {count : Nat} (place : Fin count) :
    (Finset.univ.filter fun rolls : Rolls count => lastZero rolls = some place).card
      = (count - 1).factorial := by
  -- The results that a draw can have are chosen apart from those of the others.
  have hfree : (Finset.univ.filter fun rolls : Rolls count => lastZero rolls = some place)
      = Fintype.piFinset fun draw : Fin count =>
          Finset.univ.filter fun result : Fin (draw.val + 1) =>
            draw < place ∨ (draw = place ↔ result.val = 0) := by
    ext rolls
    rw [Finset.mem_filter_univ, Fintype.mem_piFinset, lastZero_eq_some_iff]
    simp only [Finset.mem_filter_univ]
    constructor
    · rintro ⟨hzero, hlater⟩ draw
      rcases lt_trichotomy draw place with hlt | rfl | hgt
      · exact .inl hlt
      · exact .inr (iff_of_true rfl hzero)
      · exact .inr (iff_of_false hgt.ne' (hlater draw hgt))
    · intro hall
      refine ⟨((hall place).resolve_left (lt_irrefl _)).mp rfl, fun later hlt hzero => ?_⟩
      exact hlt.ne' (((hall later).resolve_left hlt.asymm).mpr hzero)
  have hchoices : ∀ draw : Fin count, (Finset.univ.filter fun result : Fin (draw.val + 1) =>
      draw < place ∨ (draw = place ↔ result.val = 0)).card = choicesFor place.val draw.val := by
    intro draw
    unfold choicesFor
    rcases lt_trichotomy draw place with hlt | rfl | hgt
    · rw [if_pos (Fin.lt_def.mp hlt)]
      simp [hlt]
    · simp [Fin.val_eq_zero_iff, Finset.filter_eq']
    · rw [if_neg (by omega), if_neg (by omega)]
      simp [hgt.ne', hgt.asymm, Fin.val_eq_zero_iff, Finset.filter_ne']
  rw [hfree, Fintype.card_piFinset, Finset.prod_congr rfl fun draw _ => hchoices draw,
    Fin.prod_univ_eq_prod_range (choicesFor place.val) count, prod_choicesFor place.isLt]

/-! ### The pass -/

/-- With one more element, that one is kept if its draw is zero. Otherwise what was kept before is
still held. -/
theorem kept_append_singleton {count : Nat} {items : List α} (hcount : items.length = count)
    (last : α) (before : Rolls count) (position : Fin (count + 1)) :
    kept (items ++ [last]) (before.snoc position)
      = if position.val = 0 then some last else kept items before := by
  subst hcount
  unfold kept
  rw [lastZero_snoc]
  split
  · simp
  · cases lastZero before with
    | none => rfl
    | some place => simp

section Pass

variable {σ : Type} [RandomSource σ]

/-- The last element of a list is drawn for after all others. The definition goes from the front,
and the comparison with all draws made beforehand needs the list from behind. -/
theorem drawKeptFrom_append_singleton {seen total : Nat} (held : Option α) (items : List α)
    (last : α) (htotal : seen + items.length = total) :
    (drawKeptFrom seen held (items ++ [last]) : Draw σ (Option α)) = (do
      let before ← drawKeptFrom seen held items
      let position ← drawIndex (total + 1) (Nat.succ_pos _)
      pure (if position.val = 0 then some last else before)) := by
  induction items generalizing seen held with
  | nil =>
    obtain rfl : seen = total := htotal
    simp only [List.nil_append, drawKeptFrom, pure_bind]
  | cons item rest ih =>
    rw [List.length_cons] at htotal
    rw [List.cons_append, drawKeptFrom, drawKeptFrom, bind_assoc]
    exact bind_congr fun position => ih _ (by omega)

/-- A pass makes its draws and keeps the element at the last zero. The draws do not depend on what
they decide, so they can all be made first, and what is left is a pure function of them. -/
theorem drawKept_eq_roll {count : Nat} (items : List α) (hcount : items.length = count) :
    (drawKept items : Draw σ (Option α)) = (do
      let rolls ← roll count
      pure (kept items rolls)) := by
  induction items using List.reverseRecOn generalizing count with
  | nil =>
    subst hcount
    rfl
  | append_singleton items last ih =>
    obtain rfl : items.length + 1 = count := by simpa using hcount
    have hbefore := ih rfl
    unfold drawKept at hbefore ⊢
    rw [drawKeptFrom_append_singleton none items last (Nat.zero_add _), hbefore, roll]
    simp only [bind_assoc, pure_bind]
    refine bind_congr fun before => bind_congr fun position => congrArg pure ?_
    exact (kept_append_singleton rfl last before position).symm

end Pass

/-- However the draws are to come out, there are words for it: one word for each of the draws, in
their order. -/
theorem exists_gives_roll {count : Nat} (hcount : count < UInt64.size) (rolls : Rolls count) :
    ∃ words, (roll count : Draw Script (Rolls count)).Gives words rolls := by
  induction count with
  | zero =>
    obtain rfl : rolls = fun place => place.elim0 := funext fun place => place.elim0
    exact ⟨[], .pure _⟩
  | succ count ih =>
    obtain ⟨words, hwords⟩ := ih (Nat.lt_of_succ_lt hcount) (Fin.init rolls)
    obtain ⟨word, hword⟩ := exists_gives_drawIndex (Nat.succ_pos count) hcount
      (rolls (Fin.last count))
    refine ⟨words ++ ([word] ++ []), hwords.bind (hword.bind ?_)⟩
    rw [Rolls.snoc, Fin.snoc_init_self]
    exact .pure rolls

section Kept

variable {count : Nat} {items : List α} (hcount : items.length = count)
include hcount

/-- The element that is kept is the one at the last zero. A list may hold the same element at
several places, so there may be more than one place for it. -/
theorem kept_eq_some_iff {rolls : Rolls count} {item : α} :
    kept items rolls = some item ↔
      ∃ place : Fin count, lastZero rolls = some place ∧ items[place] = item := by
  subst hcount
  unfold kept
  rw [Option.bind_eq_some_iff]
  refine exists_congr fun place => and_congr_right fun _ => ?_
  rw [List.getElem?_eq_getElem place.isLt, Option.some.injEq]
  rfl

/-- Something is kept of a list that has elements. -/
theorem exists_kept_eq_some (h : items ≠ []) (rolls : Rolls count) :
    ∃ item, kept items rolls = some item := by
  obtain ⟨place, hplace⟩ := Option.isSome_iff_exists.mp
    (isSome_lastZero (hcount ▸ List.length_pos_iff.mpr h) rolls)
  exact ⟨items[place], (kept_eq_some_iff hcount).mpr ⟨place, hplace, rfl⟩⟩

/-- Each element of a list without repetitions is kept by the same number of results, and
nothing else is kept by any. -/
theorem card_kept [DecidableEq α] (hnodup : items.Nodup) (item : α) :
    (Finset.univ.filter fun rolls : Rolls count => kept items rolls = some item).card
      = if item ∈ items then (count - 1).factorial else 0 := by
  split
  · rename_i hmem
    obtain ⟨index, hindex, rfl⟩ := List.mem_iff_getElem.mp hmem
    rw [← card_lastZero (⟨index, hcount ▸ hindex⟩ : Fin count)]
    congr 1
    ext rolls
    rw [Finset.mem_filter_univ, Finset.mem_filter_univ, kept_eq_some_iff hcount]
    constructor
    · rintro ⟨place, hplace, heq⟩
      -- The elements at two places differ.
      obtain rfl : place = ⟨index, hcount ▸ hindex⟩ := Fin.ext (hnodup.getElem_inj_iff.mp heq)
      exact hplace
    · exact fun hplace => ⟨_, hplace, rfl⟩
  · rename_i hmem
    rw [Finset.card_eq_zero, Finset.filter_eq_empty_iff]
    intro rolls _ hkept
    obtain ⟨place, -, rfl⟩ := (kept_eq_some_iff hcount).mp hkept
    exact hmem (List.getElem_mem _)

end Kept

/-- What is kept of a list whose elements are all changed is changed. So it does not matter
whether entities or their tokens are drawn from. -/
theorem kept_map {count : Nat} (f : α → β) (items : List α) (rolls : Rolls count) :
    kept (items.map f) rolls = (kept items rolls).map f := by
  unfold kept
  cases lastZero rolls with
  | none => rfl
  | some place => simp only [Option.bind_some, List.getElem?_map]

end TaskGrammar.Random
