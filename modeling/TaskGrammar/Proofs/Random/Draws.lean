import TaskGrammar.Random.Script

/-!
# `TaskGrammar.Proofs.Random.Draws`: what a computation with draws can end in

`Draw.Satisfies` is the contract of a computation with draws: from every source state
with a property it ends in such a state again, with a result of one kind or a fault of
another. The contracts of larger computations are put together by `Satisfies.bind`.

What a source is worth enters through `Random.Respects`, the contract of the two
primitive draws below some bounds:

* `respects_any`: a draw from any source fails at most with `Fault.endlessDraw`.
* `DrawsEnd`: from this source on, every draw below these bounds ends.

`drawIndex_satisfies`, `drawAny_satisfies` and `drawKept_satisfies` carry the contract
over to the choices from a list: an element is chosen exactly if there is one.
-/

set_option autoImplicit false

namespace TaskGrammar

variable {σ α β : Type}

namespace Draw

/-- A result at hand is there without a draw. -/
@[simp]
theorem outcome_pure (a : α) (source : σ) :
    (pure a : Draw σ α).outcome source = (.ok a, source) :=
  rfl

/-- A fault leaves the source where it is, too. -/
@[simp]
theorem outcome_throw (fault : Fault) (source : σ) :
    (throw fault : Draw σ α).outcome source = (.error fault, source) :=
  rfl

/-- The second computation goes on where the first left the source; a fault of the first
is the fault of both. -/
theorem outcome_bind (draw : Draw σ α) (next : α → Draw σ β) (source : σ) :
    (draw >>= next).outcome source =
      match draw.outcome source with
      | (.ok a, later) => (next a).outcome later
      | (.error fault, later) => (.error fault, later) := by
  show (ExceptT.bindCont next (draw.run.run source).1).run (draw.run.run source).2 = _
  unfold outcome
  rcases draw.run.run source with ⟨_ | _, later⟩ <;> rfl

/-- From each state with the property `inv` the computation ends in such a state, with a
result that `result` holds of, or it fails with a fault that `fault` holds of. -/
def Satisfies (inv : σ → Prop) (fault : Fault → Prop) (result : α → Prop)
    (draw : Draw σ α) : Prop :=
  ∀ source, inv source →
    match draw.outcome source with
    | (.ok a, later) => result a ∧ inv later
    | (.error f, _) => fault f

namespace Satisfies

variable {inv : σ → Prop} {fault : Fault → Prop} {result : α → Prop}

/-- A result at hand keeps the contract if it is one of those that are allowed. -/
protected theorem pure {a : α} (h : result a) :
    (pure a : Draw σ α).Satisfies inv fault result := by
  intro source hsource
  exact ⟨h, hsource⟩

/-- So does a fault that is allowed. -/
protected theorem throw {f : Fault} (h : fault f) :
    (throw f : Draw σ α).Satisfies inv fault result := by
  intro source _
  exact h

/-- A computation that goes on with a result keeps its contract if it does for each
result that can come up. -/
protected theorem bind {next : α → Draw σ β} {result' : β → Prop} {draw : Draw σ α}
    (hdraw : draw.Satisfies inv fault result)
    (hnext : ∀ a, result a → (next a).Satisfies inv fault result') :
    (draw >>= next).Satisfies inv fault result' := by
  intro source hsource
  have h := hdraw source hsource
  rw [outcome_bind]
  split at h
  · -- The second computation starts in the state that the first has left, which is a good one.
    rename_i a later heq
    exact hnext a h.1 later h.2
  · exact h

/-- A contract can be loosened: more results and more faults may be allowed. The property of the
source stays, since what comes after relies on it. -/
theorem mono {draw : Draw σ α} {fault' : Fault → Prop} {result' : α → Prop}
    (h : draw.Satisfies inv fault result) (hfault : ∀ f, fault f → fault' f)
    (hresult : ∀ a, result a → result' a) : draw.Satisfies inv fault' result' := by
  intro source hsource
  have h := h source hsource
  split at h
  · exact ⟨hresult _ h.1, h.2⟩
  · exact hfault _ h

/-- Only the faults are loosened here. -/
theorem mono_fault {draw : Draw σ α} {fault' : Fault → Prop}
    (h : draw.Satisfies inv fault result) (hfault : ∀ f, fault f → fault' f) :
    draw.Satisfies inv fault' result :=
  h.mono hfault fun _ hresult => hresult

/-- And here only the results are. -/
theorem mono_result {draw : Draw σ α} {result' : α → Prop}
    (h : draw.Satisfies inv fault result) (hresult : ∀ a, result a → result' a) :
    draw.Satisfies inv fault result' :=
  h.mono (fun _ hfault => hfault) hresult

/-- What a contract says of a run with a result, for those who look at one run only. The source
has to satisfy the invariant, or nothing is known. -/
theorem result_of_ok {draw : Draw σ α} (h : draw.Satisfies inv fault result) {source : σ}
    (hsource : inv source) {a : α} (hok : (draw.outcome source).1 = .ok a) : result a := by
  have h := h source hsource
  split at h
  · rename_i heq
    rw [heq, Except.ok.injEq] at hok
    exact hok ▸ h.1
  · rename_i heq
    rw [heq] at hok
    cases hok

/-- And what it says of a run with a fault. With the lemma before this one a contract can be used
without looking into its definition. -/
theorem fault_of_error {draw : Draw σ α} (h : draw.Satisfies inv fault result) {source : σ}
    (hsource : inv source) {f : Fault} (herror : (draw.outcome source).1 = .error f) :
    fault f := by
  have h := h source hsource
  split at h
  · rename_i heq
    rw [heq] at herror
    cases herror
  · rename_i heq
    rw [heq, Except.error.injEq] at herror
    exact herror ▸ h

/-- A computation that meets a contract without faults has a result. This is how it is shown that
something is returned, and not only what is returned if anything is. -/
theorem exists_ok {draw : Draw σ α} (h : draw.Satisfies inv (fun _ => False) result)
    {source : σ} (hsource : inv source) : ∃ a, (draw.outcome source).1 = .ok a := by
  cases hrun : (draw.outcome source).1 with
  | ok a => exact ⟨a, rfl⟩
  | error fault => exact (h.fault_of_error hsource hrun).elim

end Satisfies

end Draw

namespace Random

variable [RandomSource σ]

/-- The primitive draws below the given bounds keep the property `inv` of the source, and
fail only with the faults that `fault` holds of. A bound beyond 32 bits is never drawn from
words of 32 bits. -/
structure Respects (bounds : Nat → Prop) (inv : σ → Prop) (fault : Fault → Prop) : Prop where
  below64 : ∀ (bound : Nat) (h : 0 < bound), bounds bound →
    (drawBelow64 bound h : Draw σ (Fin bound)).Satisfies inv fault fun _ => True
  below32 : ∀ (bound : Nat) (h : 0 < bound), bounds bound → bound < UInt32.size →
    (drawBelow32 bound h : Draw σ (Fin bound)).Satisfies inv fault fun _ => True

/-- Every draw from the source below one of the bounds ends, and so does every such draw
after it: the source has a property with which a draw ends and which it keeps. -/
def DrawsEnd (bounds : Nat → Prop) (source : σ) : Prop :=
  ∃ inv : σ → Prop, Respects bounds inv (fun _ => False) ∧ inv source

/-- A scaled draw ends with the first accepted word, or not at all. The number of words that are
tried is what the source has patience for. -/
theorem outcome_drawScaled (size bound : Nat) (h : 0 < bound) (next : σ → Fin size × σ)
    (source : σ) :
    (drawScaled size bound h next).outcome source =
      match scaleFirst size bound h next (RandomSource.patience source) source with
      | (some result, later) => (.ok result, later)
      | (none, later) => (.error .endlessDraw, later) :=
  rfl

/-- A draw fails in one way only, by not coming to an end. Its result is below the bound by its
type, so there is nothing else to say of it. -/
theorem drawScaled_satisfies (size bound : Nat) (h : 0 < bound) (next : σ → Fin size × σ) :
    (drawScaled size bound h next).Satisfies (fun _ => True) (· = .endlessDraw)
      fun _ => True := by
  intro source _
  rw [outcome_drawScaled]
  rcases scaleFirst size bound h next (RandomSource.patience source) source with ⟨_ | _, later⟩
  · rfl
  · exact ⟨trivial, trivial⟩

/-- Whatever the source, a draw fails at most by not coming to an end. -/
theorem respects_any {bounds : Nat → Prop} :
    Respects bounds (fun _ : σ => True) (· = .endlessDraw) where
  below64 bound h _ := drawScaled_satisfies UInt64.size bound h _
  below32 bound h _ _ := drawScaled_satisfies UInt32.size bound h _

/-- A draw that is offered a zero first ends with it: zero is below every zone. The hypothesis is
about all sources of the invariant, as the draw leaves one of them behind. -/
theorem drawScaled_of_zero {inv : σ → Prop} {size bound : Nat} (h : 0 < bound)
    {next : σ → Fin size × σ}
    (hnext : ∀ source, inv source →
      0 < RandomSource.patience source ∧ (next source).1.val = 0 ∧ inv (next source).2) :
    (drawScaled size bound h next).Satisfies inv (fun _ => False) fun _ => True := by
  intro source hsource
  obtain ⟨hpatience, hzero, hlater⟩ := hnext source hsource
  obtain ⟨words, hwords⟩ := Nat.exists_eq_succ_of_ne_zero (Nat.ne_of_gt hpatience)
  -- The product with a zero is zero, and so is its low half.
  have haccepts : accepts size bound (next source).1 = true := by
    simp [accepts, hzero]
  rw [outcome_drawScaled, hwords, scaleFirst, if_pos haccepts]
  exact ⟨trivial, hlater⟩

section Choices

variable {bounds : Nat → Prop} {inv : σ → Prop} {fault : Fault → Prop}

/-- A choice from a list: an element of it, or nothing because there is none. -/
def IsChoice (items : List α) : Option α → Prop
  | none => items = []
  | some item => item ∈ items

/-- A number below a length is drawn from short words if the length is short, and else from long
ones. The contract is the same. -/
theorem drawIndex_satisfies (hdraws : Respects bounds inv fault) (length : Nat) (h : 0 < length)
    (hlength : bounds length) :
    (drawIndex length h : Draw σ (Fin length)).Satisfies inv fault fun _ => True := by
  unfold drawIndex
  split
  · rename_i hfits
    exact hdraws.below32 length h hlength hfits
  · exact hdraws.below64 length h hlength

/-- One draw chooses an element if there is one. Without elements nothing is drawn. -/
theorem drawAny_satisfies (hdraws : Respects bounds inv fault) (items : List α)
    (hlength : bounds items.length) :
    (drawAny items : Draw σ (Option α)).Satisfies inv fault (IsChoice items) := by
  cases items with
  | nil => exact Draw.Satisfies.pure rfl
  | cons item rest =>
    refine (drawIndex_satisfies hdraws _ _ hlength).bind fun position _ => ?_
    exact Draw.Satisfies.pure (List.get_mem _ position)

/-- Once an element is kept, going on keeps it or a later one. The draws are below the
number of elements seen so far, up to the length of the whole list. -/
theorem drawKeptFrom_satisfies (hdraws : Respects bounds inv fault) (seen : Nat) (item : α)
    (rest : List α) (hbounds : ∀ bound, bound ≤ seen + rest.length → bounds bound) :
    (drawKeptFrom seen (some item) rest : Draw σ (Option α)).Satisfies inv fault
      (IsChoice (item :: rest)) := by
  induction rest generalizing seen item with
  | nil => exact Draw.Satisfies.pure List.mem_cons_self
  | cons other rest ih =>
    rw [List.length_cons] at hbounds
    have hseen : bounds (seen + 1) := hbounds _ (by omega)
    refine (drawIndex_satisfies hdraws _ _ hseen).bind fun position _ => ?_
    -- Whichever of the two is kept, the rest is gone through in the same way.
    have hstep : ∀ kept, kept ∈ item :: other :: rest →
        (drawKeptFrom (seen + 1) (some kept) rest : Draw σ (Option α)).Satisfies inv fault
          (IsChoice (item :: other :: rest)) := by
      intro kept hkept
      have hrest := ih (seen + 1) kept fun bound hbound => hbounds bound (by omega)
      refine hrest.mono_result fun choice hchoice => ?_
      cases choice with
      | none => cases hchoice
      | some chosen =>
        rcases List.mem_cons.mp hchoice with rfl | hchosen
        · exact hkept
        · exact List.mem_cons_of_mem _ (List.mem_cons_of_mem _ hchosen)
    split
    · exact hstep other (List.mem_cons_of_mem _ List.mem_cons_self)
    · exact hstep item List.mem_cons_self

/-- One draw for each element chooses one if there is one. The bounds of the draws go up to the
length of the list, and nothing is asked of the source beyond them. -/
theorem drawKept_satisfies (hdraws : Respects bounds inv fault) (items : List α)
    (hbounds : ∀ bound, bound ≤ items.length → bounds bound) :
    (drawKept items : Draw σ (Option α)).Satisfies inv fault (IsChoice items) := by
  cases items with
  | nil => exact Draw.Satisfies.pure rfl
  | cons item rest =>
    rw [List.length_cons] at hbounds
    refine (drawIndex_satisfies hdraws _ _ (hbounds _ (by omega))).bind fun position _ => ?_
    -- The first draw is below one, so it is zero and the first element is kept.
    rw [if_pos (Nat.lt_one_iff.mp position.isLt)]
    exact drawKeptFrom_satisfies hdraws 1 item rest fun bound hbound => hbounds bound (by omega)

end Choices

end Random

/-- The source that offers nothing but zeros ends every draw. It is the one by which the
hypothesis of an end of draws is met in concrete cases. -/
theorem Script.drawsEnd_zero (bounds : Nat → Prop) :
    Random.DrawsEnd bounds (Script.ofWords [0]) := by
  refine ⟨(· = Script.ofWords [0]), ⟨fun bound h _ => ?_, fun bound h _ _ => ?_⟩, rfl⟩
  · refine Random.drawScaled_of_zero h ?_
    rintro source rfl
    exact ⟨Nat.one_pos, rfl, rfl⟩
  · refine Random.drawScaled_of_zero h ?_
    rintro source rfl
    exact ⟨Nat.one_pos, rfl, rfl⟩

end TaskGrammar
