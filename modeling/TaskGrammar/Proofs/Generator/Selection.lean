import TaskGrammar.Generator
import TaskGrammar.Proofs.Random.Rolls
import TaskGrammar.Proofs.Random.Steering

/-!
# `TaskGrammar.Proofs.Generator.Selection`: which grammar a tier is served from

A request names a tier. It is answered from a grammar of that tier, and only when there is none
from one of a lower tier. The selection asks in this order, by two passes over the grammars that
share one source. A pass that finds nothing draws nothing, so the two are one pass, over the
grammars that the tier is served from.

* `selectGrammar_eq`: the two passes are one.
* `selectGrammar_ends`: what a selection ends in, for every source.
* `selectGrammar_honours_tier`: no grammar that is too hard, no grammar that is too easy while
  there is one of the tier, a failure only where all grammars are too hard and then without a
  draw, no grammar left out, and no tier served less than a lower one.
-/

set_option autoImplicit false

namespace TaskGrammar

/-- Tiers of one rank are the same tier. -/
theorem Tier.rank_inj {tier tier' : Tier} (h : tier.rank = tier'.rank) : tier = tier' := by
  revert h
  cases tier <;> cases tier' <;> decide

/-- Tiers are ordered by their ranks. -/
theorem Tier.le_iff {tier tier' : Tier} : tier ≤ tier' ↔ tier.rank ≤ tier'.rank :=
  Iff.rfl

namespace Generator

variable {σ : Type} [RandomSource σ] (generator : Generator) {tier : Tier}

/-- Whether a grammar is one of those that a tier is served from: the grammars of the tier if there
are any, and else those of the lower tiers. -/
def serves (tier : Tier) (grammar : Grammar) : Bool :=
  if generator.grammars.any fun other => other.tier = tier then grammar.tier = tier
  else grammar.tier ≤ tier

/-- A request of a tier may be answered from a grammar: from one of the tier, or from one of a lower
tier while there is none of the tier. -/
def MayAnswer (tier : Tier) (grammar : Grammar) : Prop :=
  grammar ∈ generator.grammars ∧
    (grammar.tier = tier ∨
      grammar.tier.rank < tier.rank ∧ ∀ other ∈ generator.grammars, other.tier ≠ tier)

/-! ### The two passes -/

/-- The two passes of a selection are one pass over the grammars that serve the tier. The second
is made only where the first finds nothing, which is what `serves` asks first. -/
theorem filter_serves (tier : Tier) :
    generator.grammars.filter (generator.serves tier)
      = if generator.ofTier tier = [] then generator.upToTier tier else generator.ofTier tier := by
  have hany : (generator.grammars.any fun other => other.tier = tier) = true ↔
      generator.ofTier tier ≠ [] := by
    simp [ofTier, List.filter_eq_nil_iff]
  unfold serves
  by_cases hnone : generator.ofTier tier = []
  · have hfalse := Bool.eq_false_iff.mpr (mt hany.mp (not_not.mpr hnone))
    simp only [hfalse, hnone, if_true, Bool.false_eq_true, if_false]
    rfl
  · simp only [hany.mpr hnone, hnone, if_true, if_false]
    rfl

/-- The grammars that serve a tier are those that may answer it: where there is one of the tier
the lower ones are out, and where there is none no grammar has the tier itself. -/
theorem mem_filter_serves {grammar : Grammar} :
    grammar ∈ generator.grammars.filter (generator.serves tier) ↔
      generator.MayAnswer tier grammar := by
  rw [List.mem_filter]
  refine and_congr_right fun hmem => ?_
  unfold serves
  split
  · rename_i hany
    obtain ⟨other, hother, htier⟩ := List.any_eq_true.mp hany
    simp only [decide_eq_true_eq] at htier ⊢
    exact ⟨.inl, fun h => h.resolve_right fun hlower => hlower.2 other hother htier⟩
  · rename_i hany
    have hnone : ∀ other ∈ generator.grammars, other.tier ≠ tier := fun other hother htier =>
      hany (List.any_eq_true.mpr ⟨other, hother, decide_eq_true htier⟩)
    rw [decide_eq_true_eq, Tier.le_iff]
    constructor
    · intro hle
      exact .inr ⟨lt_of_le_of_ne hle (mt Tier.rank_inj (hnone grammar hmem)), hnone⟩
    · rintro (htier | ⟨hlower, -⟩)
      · exact absurd htier (hnone grammar hmem)
      · exact Nat.le_of_lt hlower

/-- The group of a tier is empty exactly if all grammars are too hard. One grammar that is easy
enough is a reason for there to be some grammar in it, though not always that one. -/
theorem filter_serves_eq_nil_iff :
    generator.grammars.filter (generator.serves tier) = [] ↔
      ∀ grammar ∈ generator.grammars, tier.rank < grammar.tier.rank := by
  rw [List.eq_nil_iff_forall_not_mem]
  simp only [mem_filter_serves]
  constructor
  · intro hnone grammar hmem
    by_contra hle
    rw [not_lt] at hle
    -- A grammar of the tier answers, and without one a lower one does.
    by_cases hexact : ∃ other ∈ generator.grammars, other.tier = tier
    · obtain ⟨other, hother, htier⟩ := hexact
      exact hnone other ⟨hother, .inl htier⟩
    · have hall : ∀ other ∈ generator.grammars, other.tier ≠ tier :=
        fun other hother htier => hexact ⟨other, hother, htier⟩
      have hlt := lt_of_le_of_ne hle (mt Tier.rank_inj (hall grammar hmem))
      exact hnone grammar ⟨hmem, .inr ⟨hlt, hall⟩⟩
  · rintro hhard grammar ⟨hmem, rfl | ⟨hlower, -⟩⟩
    · exact lt_irrefl _ (hhard grammar hmem)
    · exact hlower.asymm (hhard grammar hmem)

/-- The two passes are one, over the group of the tier. Everything else about the selection is
derived from this equation. -/
theorem selectGrammar_eq (htier : tier ≠ .unknown) :
    (generator.selectGrammar tier : Draw σ Grammar) = (do
      match ← Random.drawKept (generator.grammars.filter (generator.serves tier)) with
      | some grammar => pure grammar
      | none => throw (.noGrammarForTier tier)) := by
  unfold selectGrammar
  rw [if_neg htier, filter_serves]
  split
  · rename_i hnone
    -- The first pass has nothing to draw for, and the second begins where the source is.
    rw [hnone]
    rfl
  · rename_i hsome
    rw [Random.drawKept_eq_roll (generator.ofTier tier) rfl, bind_assoc, bind_assoc]
    refine bind_congr fun rolls => ?_
    obtain ⟨grammar, hkept⟩ := Random.exists_kept_eq_some rfl hsome rolls
    rw [pure_bind, pure_bind, hkept]

/-! ### What a selection ends in -/

/-- A selection ends in a grammar that may answer, or fails because there is none. It can also
fail by what the source makes of a draw, which is left to the contract of the source. -/
theorem selectGrammar_ends (htier : tier ≠ .unknown) {inv : σ → Prop}
    {fault : Fault → Prop}
    (hdraws : Random.Respects (fun bound => bound ≤ generator.grammars.length) inv fault) :
    (generator.selectGrammar tier : Draw σ Grammar).Satisfies inv
      (fun f => fault f ∨ f = .noGrammarForTier tier ∧
        ∀ grammar ∈ generator.grammars, tier.rank < grammar.tier.rank)
      (generator.MayAnswer tier) := by
  have hlength := List.length_filter_le (generator.serves tier) generator.grammars
  have hkept := Random.drawKept_satisfies hdraws
    (generator.grammars.filter (generator.serves tier)) fun bound hbound => hbound.trans hlength
  rw [selectGrammar_eq generator htier]
  refine (hkept.mono_fault fun f hf => .inl hf).bind fun choice hchoice => ?_
  cases choice with
  | some grammar => exact Draw.Satisfies.pure ((mem_filter_serves generator).mp hchoice)
  | none =>
    exact Draw.Satisfies.throw (.inr ⟨rfl, (filter_serves_eq_nil_iff generator).mp hchoice⟩)

/-- Where all grammars are too hard nothing is drawn, so that the source is left as it was. -/
theorem selectGrammar_of_hard (htier : tier ≠ .unknown)
    (hhard : ∀ grammar ∈ generator.grammars, tier.rank < grammar.tier.rank) :
    (generator.selectGrammar tier : Draw σ Grammar) = throw (.noGrammarForTier tier) := by
  rw [selectGrammar_eq generator htier, (filter_serves_eq_nil_iff generator).mpr hhard]
  rfl

/-- Random words lead to each grammar that may answer. The bound on the number of grammars is what
their positions are drawn below. -/
theorem exists_gives_selectGrammar (htier : tier ≠ .unknown)
    (hlength : generator.grammars.length < UInt64.size) {grammar : Grammar}
    (h : generator.MayAnswer tier grammar) :
    ∃ words, (generator.selectGrammar tier : Draw Script Grammar).Gives words grammar := by
  have hfilter := List.length_filter_le (generator.serves tier) generator.grammars
  obtain ⟨words, hwords⟩ := Random.exists_gives_drawKept (Nat.lt_of_le_of_lt hfilter hlength)
    ((mem_filter_serves generator).mpr h)
  rw [selectGrammar_eq generator htier]
  exact ⟨words ++ [], hwords.bind (.pure grammar)⟩

/-- Where draws end, a selection fails exactly if all grammars are too hard. The fault is then the
only one that there is. -/
theorem selectGrammar_eq_error_iff (htier : tier ≠ .unknown) {source : σ}
    (hends : Random.DrawsEnd (fun bound => bound ≤ generator.grammars.length) source)
    {fault : Fault} :
    ((generator.selectGrammar tier : Draw σ Grammar).outcome source).1 = .error fault ↔
      fault = .noGrammarForTier tier ∧
        ∀ grammar ∈ generator.grammars, tier.rank < grammar.tier.rank := by
  obtain ⟨inv, hdraws, hsource⟩ := hends
  constructor
  · intro hfault
    have h := (selectGrammar_ends generator htier hdraws).fault_of_error hsource hfault
    exact h.resolve_left id
  · rintro ⟨rfl, hhard⟩
    rw [selectGrammar_of_hard generator htier hhard, Draw.outcome_throw]

/-- The tier of a request is honoured, whatever the grammars.

* For every source, a grammar that is selected is one of the list and of the tier, or of a lower one
  while there is none of the tier.
* For every source whose draws end, the selection fails exactly if all grammars are of higher
  tiers, and in one way. It is then the same computation as the failure alone, so it makes no use
  of the source.
* Each grammar that may be selected is selected for some random words. (The list is one that words
  of 64 bits can count.)
* When one run has served a tier, every run whose draws end serves every higher tier. -/
theorem selectGrammar_honours_tier (htier : tier ≠ .unknown) :
    (∀ {σ : Type} [RandomSource σ] (source : σ) (grammar : Grammar),
      ((generator.selectGrammar tier : Draw σ Grammar).outcome source).1 = .ok grammar →
        generator.MayAnswer tier grammar) ∧
    (∀ {σ : Type} [RandomSource σ] (source : σ),
      Random.DrawsEnd (fun bound => bound ≤ generator.grammars.length) source → ∀ fault,
        ((generator.selectGrammar tier : Draw σ Grammar).outcome source).1 = .error fault ↔
          fault = .noGrammarForTier tier ∧
            ∀ grammar ∈ generator.grammars, tier.rank < grammar.tier.rank) ∧
    ((∀ grammar ∈ generator.grammars, tier.rank < grammar.tier.rank) →
      ∀ {σ : Type} [RandomSource σ],
        (generator.selectGrammar tier : Draw σ Grammar) = throw (.noGrammarForTier tier)) ∧
    (generator.grammars.length < UInt64.size → ∀ grammar, generator.MayAnswer tier grammar →
      ∃ words, ((generator.selectGrammar tier : Draw Script Grammar).outcome
        (Script.ofWords words)).1 = .ok grammar) ∧
    ∀ higher : Tier, tier ≤ higher →
      (∃ (σ : Type) (_ : RandomSource σ) (source : σ) (grammar : Grammar),
        ((generator.selectGrammar tier : Draw σ Grammar).outcome source).1 = .ok grammar) →
      ∀ {σ : Type} [RandomSource σ] (source : σ),
        Random.DrawsEnd (fun bound => bound ≤ generator.grammars.length) source →
          ∃ grammar, ((generator.selectGrammar higher : Draw σ Grammar).outcome source).1
            = .ok grammar := by
  have hsound : ∀ {σ : Type} [RandomSource σ] (source : σ) (grammar : Grammar),
      ((generator.selectGrammar tier : Draw σ Grammar).outcome source).1 = .ok grammar →
        generator.MayAnswer tier grammar := fun source grammar hok =>
    (selectGrammar_ends generator htier Random.respects_any).result_of_ok trivial hok
  refine ⟨hsound, fun source hends fault => selectGrammar_eq_error_iff generator htier hends,
    fun hhard => selectGrammar_of_hard generator htier hhard, ?_, ?_⟩
  · intro hlength grammar hanswers
    obtain ⟨words, hwords⟩ := exists_gives_selectGrammar generator htier hlength hanswers
    exact ⟨words, hwords.outcome_ofWords⟩
  · rintro higher hle ⟨σ, _, source, grammar, hok⟩ σ' _ source' hends
    obtain ⟨hmem, hanswer⟩ := hsound source grammar hok
    have hhigher : higher ≠ .unknown := by
      rintro rfl
      exact htier (Tier.rank_inj (Nat.le_zero.mp hle))
    cases hrun : ((generator.selectGrammar higher : Draw σ' Grammar).outcome source').1 with
    | ok chosen => exact ⟨chosen, rfl⟩
    | error fault =>
      -- The grammar that has answered the lower tier is not too hard for the higher one.
      obtain ⟨-, hhard⟩ := (selectGrammar_eq_error_iff generator hhigher hends).mp hrun
      have hlow : grammar.tier.rank ≤ tier.rank := by
        rcases hanswer with rfl | ⟨hlower, -⟩
        · exact Nat.le_refl _
        · exact Nat.le_of_lt hlower
      exact absurd (hhard grammar hmem) (not_lt.mpr (hlow.trans hle))

/-- A generator with one grammar for each of some tiers. -/
def ofTiers (tiers : List Tier) : Generator :=
  { grammars := tiers.map fun tier =>
      Grammar.ofRules tier.name tier [{ id := Grammar.rootId, replacements := [tier.name] }]
    entities := .empty
    settings := .standard }

/-- Between an easy and a hard grammar a moderate task is asked of the easy one, for some words and
for the source of zeros, and so there is a grammar for a hard task too. With the hard grammar alone
a moderate task fails without a draw. -/
theorem selectGrammar_honours_tier_gap :
    Tier.moderate ≠ .unknown ∧ Tier.moderate ≤ .high ∧
    (ofTiers [.easy, .high]).grammars.length < UInt64.size ∧
    Random.DrawsEnd (fun bound => bound ≤ (ofTiers [.easy, .high]).grammars.length)
      (Script.ofWords [0]) ∧
    (∃ grammar, (ofTiers [.easy, .high]).MayAnswer .moderate grammar ∧ grammar.tier = .easy ∧
      (((ofTiers [.easy, .high]).selectGrammar .moderate : Draw Script Grammar).outcome
        (Script.ofWords [0])).1 = .ok grammar ∧
      ∃ words, (((ofTiers [.easy, .high]).selectGrammar .moderate : Draw Script Grammar).outcome
        (Script.ofWords words)).1 = .ok grammar) ∧
    (∃ grammar, (((ofTiers [.easy, .high]).selectGrammar .high : Draw Script Grammar).outcome
      (Script.ofWords [0])).1 = .ok grammar) ∧
    (∀ grammar ∈ (ofTiers [.high]).grammars, Tier.moderate.rank < grammar.tier.rank) ∧
    ((ofTiers [.high]).selectGrammar .moderate : Draw Script Grammar)
      = throw (.noGrammarForTier .moderate) := by
  have htier : Tier.moderate ≠ .unknown := by decide
  have hle : Tier.moderate ≤ .high := by decide
  have hlength : (ofTiers [.easy, .high]).grammars.length < UInt64.size := by decide
  have hends := Script.drawsEnd_zero fun bound => bound ≤ (ofTiers [.easy, .high]).grammars.length
  have hhard : ∀ grammar ∈ (ofTiers [.high]).grammars, Tier.moderate.rank < grammar.tier.rank := by
    decide
  have htiers : ∀ grammar ∈ (ofTiers [.easy, .high]).grammars,
      (grammar.tier = .moderate ∨ grammar.tier.rank < Tier.moderate.rank) →
        grammar.tier = .easy := by
    decide
  obtain ⟨hsound, hfails, -, hreach, hhigher⟩ :=
    selectGrammar_honours_tier (ofTiers [.easy, .high]) htier
  obtain ⟨-, -, hnone, -, -⟩ := selectGrammar_honours_tier (ofTiers [.high]) htier
  obtain ⟨grammar, hrun⟩ : ∃ grammar,
      (((ofTiers [.easy, .high]).selectGrammar .moderate : Draw Script Grammar).outcome
        (Script.ofWords [0])).1 = .ok grammar := by
    cases hrun : (((ofTiers [.easy, .high]).selectGrammar .moderate : Draw Script Grammar).outcome
        (Script.ofWords [0])).1 with
    | ok grammar => exact ⟨grammar, rfl⟩
    | error fault => exact absurd ((hfails _ hends fault).mp hrun).2 (by decide)
  have hanswers := hsound _ grammar hrun
  exact ⟨htier, hle, hlength, hends,
    ⟨grammar, hanswers, htiers grammar hanswers.1 (hanswers.2.imp_right And.left), hrun,
      hreach hlength grammar hanswers⟩,
    hhigher .high hle ⟨Script, inferInstance, _, grammar, hrun⟩ _ hends, hhard, hnone hhard⟩

end Generator

end TaskGrammar
