import TaskGrammar.Expansion
import TaskGrammar.Proofs.Generator.Selection

/-!
# `TaskGrammar.Proofs.Generator.Fairness`: every match has the same chance

A wildcard for a person, a place or an object may leave out entities by a filter, and a request
leaves out grammars by their tier. Of the others one is chosen by a pass that draws for each of
them. What the choice owes to the random source are the results of these draws alone, and
`ChoosesFairly` counts them: of `m` matches each is chosen by `(m - 1)!` of the `m!` ways in which
the draws can come out, wherever it stands, and whatever stands around it.

Elements are told apart by their positions. A dataset may have two entities of one name, and two
that differ in what a token does not show, so that the tokens alone would not tell which of them
has been chosen.

* `choosesFairly_of_drawKept`: a pass over the matches chooses fairly among all elements.
* `filtered_draws_are_fair`: the wildcards and the selection of a grammar are such passes.
-/

set_option autoImplicit false

namespace TaskGrammar

variable {α β γ : Type}

namespace Random

/-! ### Matches by their positions -/

/-- The positions of the elements that a test admits, in order. -/
def positions (admits : α → Bool) (items : List α) : List (Fin items.length) :=
  (List.finRange items.length).filter fun position => admits items[position]

section Positions

variable {admits : α → Bool} {items : List α}

/-- The positions are those of the elements that the test admits. -/
theorem mem_positions {position : Fin items.length} :
    position ∈ positions admits items ↔ admits items[position] = true := by
  simp [positions]

/-- Each position comes once, even where two elements are the same. This is why elements are told
apart by their positions and not by what they are. -/
theorem nodup_positions : (positions admits items).Nodup :=
  (List.nodup_finRange items.length).filter _

/-- The elements at these positions are what the test leaves of the list. -/
theorem map_positions :
    (positions admits items).map (fun position => items[position]) = items.filter admits := by
  conv_rhs => rw [← List.map_getElem_finRange items]
  rw [List.filter_map]
  rfl

/-- There are as many positions as elements that the test admits, so drawing below the one number
is drawing below the other. -/
theorem length_positions : (positions admits items).length = items.countP admits := by
  rw [List.countP_eq_length_filter, ← map_positions, List.length_map]

end Positions

/-- In how many ways the draws for the admitted elements can come out if the element at a position
is to be chosen. -/
def ways (admits : α → Bool) (items : List α) (position : Fin items.length) : Nat :=
  (Finset.univ.filter fun rolls : Rolls (items.countP admits) =>
    kept (positions admits items) rolls = some position).card

/-- A computation chooses fairly among the elements of a list that a test admits, `m` of them, and
goes on with the chosen one. -/
structure ChoosesFairly (items : List α) (admits : α → Bool) (result : α → β) (fault : Fault)
    (draw : (σ : Type) → [RandomSource σ] → Draw σ β) : Prop where
  /-- If no element is admitted, the computation is the failure and nothing else: nothing is
  drawn. -/
  fails : (∀ item ∈ items, admits item = false) →
    ∀ (σ : Type) [RandomSource σ], draw σ = throw fault
  /-- It makes one draw for each admitted element, the k-th below k, and goes on with the element
  that is kept. -/
  keeps : ∀ (σ : Type) [RandomSource σ],
    draw σ = (do
      let rolls ← roll (items.countP admits)
      match kept (positions admits items) rolls with
      | some position => pure (result items[position])
      | none => throw fault)
  /-- If some element is admitted, one is kept however the draws come out. -/
  chooses : (∃ item ∈ items, admits item = true) →
    ∀ rolls : Rolls (items.countP admits), ∃ position, kept (positions admits items) rolls
      = some position
  /-- The draws can come out in `m!` ways. -/
  card_rolls : Fintype.card (Rolls (items.countP admits)) = (items.countP admits).factorial
  /-- In each of these ways they do come out, for some random words. (The elements are as many as
  words of 64 bits can count.) -/
  occurs : items.countP admits < UInt64.size → ∀ rolls : Rolls (items.countP admits),
    ∃ words, (roll (items.countP admits) : Draw Script _).Gives words rolls
  /-- Each admitted element is chosen by `(m - 1)!` of them, and no other by any. -/
  ways_eq : ∀ position : Fin items.length,
    ways admits items position
      = if admits items[position] then (items.countP admits - 1).factorial else 0

/-- A pass over the admitted elements, or over something that is made of each, chooses fairly.
What is made of them need not tell them apart, and all the parts of the contract are proved here,
once for all passes. -/
theorem choosesFairly_of_drawKept {items : List α} {admits : α → Bool} {fault : Fault}
    {draw : (σ : Type) → [RandomSource σ] → Draw σ β} (made : α → γ) (result : γ → β)
    (hdraw : ∀ (σ : Type) [RandomSource σ],
      draw σ = (do
        match ← drawKept ((items.filter admits).map made) with
        | some item => pure (result item)
        | none => throw fault)) :
    ChoosesFairly items admits (fun item => result (made item)) fault draw where
  fails := by
    intro hnone σ _
    have hfilter : items.filter admits = [] := by
      simpa [List.filter_eq_nil_iff] using hnone
    rw [hdraw, hfilter]
    rfl
  keeps := by
    intro σ _
    have hlength : ((items.filter admits).map made).length = items.countP admits := by
      rw [List.length_map, List.countP_eq_length_filter]
    rw [hdraw, drawKept_eq_roll _ hlength, bind_assoc]
    refine bind_congr fun rolls => ?_
    rw [pure_bind, ← map_positions, kept_map, kept_map]
    cases kept (positions admits items) rolls <;> rfl
  chooses := by
    rintro ⟨item, hmem, hadmits⟩ rolls
    refine exists_kept_eq_some length_positions (fun hnone => ?_) rolls
    have hpos : 0 < items.countP admits := List.countP_pos_iff.mpr ⟨item, hmem, hadmits⟩
    rw [← length_positions, hnone] at hpos
    exact Nat.lt_irrefl 0 hpos
  card_rolls := card_rolls _
  occurs := exists_gives_roll
  ways_eq := by
    intro position
    rw [ways, card_kept length_positions nodup_positions position]
    simp only [mem_positions]

end Random

open TaskGrammar.Random

/-- What a wildcard adds when an entity is chosen for it. -/
def Wildcard.mentions [Entity α] (wildcard : Wildcard) (entity : α) : List Token :=
  [(Entity.token entity).annotate wildcard.metadata]

/-- A wildcard whose candidates are the admitted entities of a dataset is drawn fairly from it. A
remark is added to what was drawn, and the choice is the same. -/
theorem choosesFairly_expandWildcard [Entity α] {entities : Entities} {wildcard : Wildcard}
    {items : List α} {admits : α → Bool} (hfiltered : wildcard.kind.isFiltered = true)
    (hcandidates : entities.candidates wildcard.kind = (items.filter admits).map Entity.token) :
    ChoosesFairly items admits wildcard.mentions (.noCandidates wildcard.key)
      fun _ _ => Expansion.expandWildcard entities wildcard := by
  refine choosesFairly_of_drawKept Entity.token
    (fun token => [token.annotate wildcard.metadata]) fun σ _ => ?_
  unfold Expansion.expandWildcard
  split
  · rename_i hvoid
    rw [hvoid] at hfiltered
    cases hfiltered
  · rw [Expansion.drawCandidate, if_pos hfiltered, hcandidates]
    refine bind_congr fun choice => ?_
    cases choice <;> rfl

/-- Draws behind a filter are fair.

For any datasets, a wildcard for a name, a location or an object is drawn fairly from the entities
that its filter admits, and it fails where there are none. For any grammars, so is the grammar for a
tier from those that the tier is served from. -/
theorem filtered_draws_are_fair :
    (∀ (entities : Entities) (wildcard : Wildcard),
      (∀ filter, wildcard.kind = .name filter →
        ChoosesFairly entities.names.items filter.admits wildcard.mentions
          (.noCandidates wildcard.key) fun _ _ => Expansion.expandWildcard entities wildcard) ∧
      (∀ filter, wildcard.kind = .location filter →
        ChoosesFairly entities.locations.items filter.admits wildcard.mentions
          (.noCandidates wildcard.key) fun _ _ => Expansion.expandWildcard entities wildcard) ∧
      ∀ filter, wildcard.kind = .object filter →
        ChoosesFairly entities.objects.items filter.admits wildcard.mentions
          (.noCandidates wildcard.key) fun _ _ => Expansion.expandWildcard entities wildcard) ∧
    ∀ (generator : Generator) (tier : Tier), tier ≠ .unknown →
      ChoosesFairly generator.grammars (generator.serves tier) id (.noGrammarForTier tier)
        fun _ _ => generator.selectGrammar tier := by
  refine ⟨fun entities wildcard => ⟨fun filter hkind => ?_, fun filter hkind => ?_,
    fun filter hkind => ?_⟩, fun generator tier htier => ?_⟩
  · exact choosesFairly_expandWildcard (by rw [hkind]; rfl) (by rw [hkind]; rfl)
  · exact choosesFairly_expandWildcard (by rw [hkind]; rfl) (by rw [hkind]; rfl)
  · exact choosesFairly_expandWildcard (by rw [hkind]; rfl) (by rw [hkind]; rfl)
  · refine choosesFairly_of_drawKept id id fun σ _ => ?_
    rw [Generator.selectGrammar_eq generator htier, List.map_id]
    refine bind_congr fun choice => ?_
    cases choice <;> rfl

/-- Three women and a man, a room with a beacon, and two drinks of which one is known. -/
def Entities.household : Entities :=
  let drinks : Category := ⟨"drinks".toList, "bar".toList, "kitchen".toList⟩
  ((Entities.empty.withNames [⟨"Eve".toList, .female⟩, ⟨"Adam".toList, .male⟩,
    ⟨"Ann".toList, .female⟩, ⟨"Mia".toList, .female⟩]).withLocations
    [.ofRoom "kitchen".toList, .inside "bar".toList "kitchen".toList true false]).withObjects
    [⟨"coke".toList, .known, drinks⟩, ⟨"juice".toList, .special, drinks⟩]

/-- Each of the three women is chosen by two of the six ways, and the man by none. The one beacon
and the one known object are chosen by the one way that there is. Of three grammars, two of them
easy, a moderate task is asked of either easy one by one of two ways. -/
theorem filtered_draws_are_fair_household :
    (Wildcard.kind ⟨"female".toList, [], true⟩ = .name .female ∧
      (List.finRange 4).map (ways NameFilter.female.admits Entities.household.names.items)
        = [2, 0, 2, 2]) ∧
    (Wildcard.kind ⟨"beacon".toList, [], true⟩ = .location .beacon ∧
      (List.finRange 2).map (ways LocationFilter.beacon.admits Entities.household.locations.items)
        = [0, 1]) ∧
    (Wildcard.kind ⟨"kobject".toList, [], true⟩ = .object .known ∧
      (List.finRange 2).map (ways ObjectFilter.known.admits Entities.household.objects.items)
        = [1, 0]) ∧
    Tier.moderate ≠ .unknown ∧
      (List.finRange 3).map (ways ((Generator.ofTiers [.easy, .high, .easy]).serves .moderate)
        (Generator.ofTiers [.easy, .high, .easy]).grammars) = [1, 0, 1] := by
  have hkinds : Wildcard.kind ⟨"female".toList, [], true⟩ = .name .female ∧
      Wildcard.kind ⟨"beacon".toList, [], true⟩ = .location .beacon ∧
      Wildcard.kind ⟨"kobject".toList, [], true⟩ = .object .known := by decide
  obtain ⟨hfemale, hbeacon, hknown⟩ := hkinds
  have htier : Tier.moderate ≠ .unknown := by decide
  have hnames := ((filtered_draws_are_fair.1 .household _).1 .female hfemale).ways_eq
  have hlocations := ((filtered_draws_are_fair.1 .household _).2.1 .beacon hbeacon).ways_eq
  have hobjects := ((filtered_draws_are_fair.1 .household _).2.2 .known hknown).ways_eq
  have hgrammars :=
    (filtered_draws_are_fair.2 (Generator.ofTiers [.easy, .high, .easy]) .moderate htier).ways_eq
  refine ⟨⟨hfemale, ?_⟩, ⟨hbeacon, ?_⟩, ⟨hknown, ?_⟩, htier, ?_⟩
  · rw [funext hnames]
    decide
  · rw [funext hlocations]
    decide
  · rw [funext hobjects]
    decide
  · rw [funext hgrammars]
    decide

end TaskGrammar
