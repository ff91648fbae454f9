import Comoment.Autocorrelation
import Comoment.Proofs.OrderIndependence
import Comoment.Proofs.Shifts

/-!
Autocorrelation from the values that are a lag apart. There is one exactly if some slot and the slot
`lag` before it both hold a value, as the variance then has a value too, and without rounding it is
the formula over those pairs and over all values of the sequence.
-/

namespace Comoment

variable {ε α : Type}

namespace Sequence

/-- The nulls that a shift leaves pair with nothing, like those of the sequence. -/
theorem pairs_shift [Inhabited ε] (values : Sequence ε) (lag : Int) :
    values.pairs (shift { periods := lag } values).toSequence = values.laggedPairs lag := by
  unfold pairs laggedPairs
  rw [shift_length, Nat.min_self]
  apply List.filterMap_congr
  intro index found
  rw [pairAt?, shift_get? _ _ (List.mem_range.mp found)]
  unfold shiftedSlot laggedAt?
  dsimp only
  split
  · rfl
  · cases values.get? index <;> rfl

theorem mem_lagged_pairs {values : Sequence ε} {lag : Int} {current earlier : ε} :
    (current, earlier) ∈ values.laggedPairs lag ↔
      ∃ index : Nat, index < values.length ∧ 0 ≤ index - lag ∧ index - lag < values.length ∧
        values.get? index = some current ∧ values.get? (index - lag).toNat = some earlier := by
  unfold laggedPairs
  rw [List.mem_filterMap]
  apply exists_congr
  intro index
  rw [List.mem_range, laggedAt?]
  split
  · rename_i bounds
    have lower : lag ≤ index := Int.sub_nonneg.mp bounds.1
    simp [lower, bounds.2, Option.bind_eq_some_iff]
  · rename_i outside
    simp only [reduceCtorEq, and_false, false_iff]
    rintro ⟨_, lower, upper, _⟩
    exact outside ⟨lower, upper⟩

section Lagged

variable {values : Sequence ε} (lag : Int)

theorem Lawful.get_is_some (lawful : values.Lawful) (index : Nat) :
    (values.get? index).isSome = values.isValid index := by
  cases valid : values.isValid index with
  | false =>
    rw [get_of_null valid]
    rfl
  | true =>
    obtain ⟨stored, found⟩ := lawful.valid_stored index valid
    simp [get?, valid, found, Except.toOption]

theorem has_lagged_pair_iff (lawful : values.Lawful) :
    values.HasLaggedPair lag ↔ 0 < (values.laggedPairs lag).length := by
  rw [List.length_pos_iff_exists_mem, Prod.exists]
  simp only [mem_lagged_pairs, HasLaggedPair, ← lawful.get_is_some, Option.isSome_iff_exists]
  constructor
  · rintro ⟨index, inside, lower, upper, ⟨current, first⟩, ⟨earlier, second⟩⟩
    exact ⟨current, earlier, index, inside, lower, upper, first, second⟩
  · rintro ⟨current, earlier, index, inside, lower, upper, first, second⟩
    exact ⟨index, inside, lower, upper, ⟨current, first⟩, ⟨earlier, second⟩⟩

theorem present_of_lagged (some : 0 < (values.laggedPairs lag).length) :
    0 < values.present.length := by
  obtain ⟨⟨current, earlier⟩, found⟩ := List.length_pos_iff_exists_mem.mp some
  obtain ⟨index, inside, _, _, stored, _⟩ := mem_lagged_pairs.mp found
  have slot : values.get? index ∈ values.toOptions :=
    List.mem_map.mpr ⟨index, List.mem_range.mpr inside, rfl⟩
  exact List.length_pos_iff_exists_mem.mpr ⟨current, List.mem_filterMap.mpr ⟨_, slot, stored⟩⟩

end Lagged

end Sequence

variable [Element ε] [Scalar α]

theorem covariance_default {x y : Sequence ε} (xLawful : x.Lawful) (yLawful : y.Lawful)
    (aligned : x.length = y.length) :
    (covariance {} x y : Except Error (Option α)) =
      .ok (if 0 < x.pairCount y then
        some ((Element.moments 0 x y : Moments α).comoment / Scalar.ofInt (x.pairCount y))
      else none) := by
  have admitted := CovarianceState.of_chunk_is_admitted (α := α) xLawful yLawful {} 0
  rw [covariance_aligned xLawful yLawful {} aligned]
  split
  · rename_i some
    have accepted := admitted.mpr ⟨Int.natCast_pos.mpr some, Int.natCast_nonneg _, .inl rfl⟩
    rw [CovarianceState.of_chunk_value xLawful yLawful accepted, Int.sub_zero]
  · rename_i none
    have refused := mt admitted.mp fun accepted => none (Int.natCast_pos.mp accepted.1)
    rw [CovarianceState.value?, if_neg refused]

variable {values : Sequence ε}

theorem autocorrelation_of_values {lag : Int} {lagged whole : α} (accepted : lag ≤ values.length)
    (covaries : covariance {} values (shift { periods := lag } values).toSequence =
      .ok (some lagged))
    (varies : variance {} values = .ok (some whole)) :
    autocorrelation lag values =
      .ok (some (lagged / whole / Scalar.ofInt (values.length - 1 - lag))) := by
  unfold autocorrelation
  rw [if_neg (Int.not_lt.mpr accepted), varies]
  dsimp only
  rw [covaries]
  rfl

section Lawful

variable (lawful : values.Lawful) {lag : Int}

include lawful

theorem covariance_lagged :
    (covariance {} values (shift { periods := lag } values).toSequence :
        Except Error (Option α)) =
      .ok (if 0 < (values.laggedPairs lag).length then
        some ((Element.moments 0 values (shift { periods := lag } values).toSequence :
          Moments α).comoment / Scalar.ofInt (values.laggedPairs lag).length)
      else none) := by
  have shifted := (shift { periods := lag } values).to_sequence_lawful
  rw [covariance_default lawful shifted (shift_length _ _).symm,
    ← Sequence.pairs_length lawful shifted, Sequence.pairs_shift]

theorem variance_present :
    (variance {} values : Except Error (Option α)) =
      .ok (if 0 < values.present.length then
        some ((Element.moments 0 values values : Moments α).comoment /
          Scalar.ofInt values.present.length)
      else none) := by
  have count : values.pairCount values = values.present.length := by
    rw [← Sequence.pairs_length lawful lawful, Chunk.twice_pairs, List.length_map]
  rw [← count]
  exact covariance_default lawful lawful rfl

theorem covariance_has_value_iff :
    (∃ lagged : α, covariance {} values (shift { periods := lag } values).toSequence =
      .ok (some lagged)) ↔ values.HasLaggedPair lag := by
  rw [covariance_lagged lawful, Sequence.has_lagged_pair_iff lag lawful]
  split <;> simp_all

theorem variance_has_value (paired : values.HasLaggedPair lag) :
    ∃ whole : α, variance {} values = .ok (some whole) := by
  have some := (Sequence.has_lagged_pair_iff lag lawful).mp paired
  rw [variance_present lawful, if_pos (Sequence.present_of_lagged lag some)]
  exact ⟨_, rfl⟩

/-- Where the covariance has a value the variance has one, so one exit is never taken. -/
theorem autocorrelation_accepted (accepted : lag ≤ values.length) :
    (autocorrelation lag values : Except Error (Option α)) =
      .ok (if 0 < (values.laggedPairs lag).length then
        some ((Element.moments 0 values (shift { periods := lag } values).toSequence :
            Moments α).comoment / Scalar.ofInt (values.laggedPairs lag).length /
          ((Element.moments 0 values values : Moments α).comoment /
            Scalar.ofInt values.present.length) /
          Scalar.ofInt (values.length - 1 - lag))
      else none) := by
  by_cases some : 0 < (values.laggedPairs lag).length
  · rw [if_pos some]
    apply autocorrelation_of_values accepted
    · rw [covariance_lagged lawful, if_pos some]
    · rw [variance_present lawful, if_pos (Sequence.present_of_lagged lag some)]
  · unfold autocorrelation
    rw [if_neg some, if_neg (Int.not_lt.mpr accepted)]
    dsimp only
    rw [covariance_lagged lawful, if_neg some]
    rfl

theorem autocorrelation_eq_none_iff (accepted : lag ≤ values.length) :
    (autocorrelation lag values : Except Error (Option α)) = .ok none ↔
      ¬values.HasLaggedPair lag := by
  rw [autocorrelation_accepted lawful accepted, Sequence.has_lagged_pair_iff lag lawful]
  split <;> simp_all

/-- Without rounding the centered products are those of the lagged pairs, and the squares those of
all values. -/
theorem autocorrelation_exact (accepted : lag ≤ values.length)
    (paired : values.HasLaggedPair lag) :
    let lagged := numbers (Element.exact 0) (values.laggedPairs lag)
    let present : Multiset ℚ := values.present.map (Element.exact 0)
    let products :=
      deviationProducts lagged (mean (lagged.map Prod.fst)) (mean (lagged.map Prod.snd))
    let squares := deviationSquares present (mean present)
    autocorrelation lag values =
      .ok (some (products / lagged.card / (squares / present.card) /
        ((values.length - 1 - lag : Int) : ℚ))) := by
  intro lagged present products squares
  have shifted := (shift { periods := lag } values).to_sequence_lawful
  have twice : numbers (Element.exact 0) (values.pairs values) =
      present.map fun value => (value, value) := by
    simp [numbers, present, Chunk.twice_pairs, Function.comp_def]
  have summed : (Element.moments 0 values values : Moments ℚ).comoment = squares := by
    rw [Element.moments_eq lawful lawful, twice, ← Spread.of_values_moments]
    rfl
  have laggedCard : lagged.card = (values.laggedPairs lag).length := by simp [lagged, numbers]
  have presentCard : present.card = values.present.length := by simp [present]
  rw [autocorrelation_accepted lawful accepted,
    if_pos ((Sequence.has_lagged_pair_iff lag lawful).mp paired), summed,
    Element.moments_eq lawful shifted, Sequence.pairs_shift, laggedCard, presentCard]
  rfl

end Lawful

/-- The autocorrelation of a sequence fails for a lag past its end and in no other case. For any
other lag, however far below zero, it has no value exactly if no slot and the slot `lag` before it
both hold one; a covariance without a variance does not occur. Without rounding the value is the
formula for the lagged pairs and all values of the sequence, where rational numbers divided by zero
are zero: it says nothing about doubles without a variance or at the last lag. -/
theorem autocorrelation_outcomes {values : Sequence ε} (lawful : values.Lawful) (lag : Int) :
    let earlier := (shift { periods := lag } values).toSequence
    let lagged := numbers (Element.exact 0) (values.laggedPairs lag)
    let present : Multiset ℚ := values.present.map (Element.exact 0)
    let products :=
      deviationProducts lagged (mean (lagged.map Prod.fst)) (mean (lagged.map Prod.snd))
    let squares := deviationSquares present (mean present)
    (∀ cause, (autocorrelation lag values : Except Error (Option α)) = .error cause ↔
      values.length < lag ∧ cause = .lagOutOfRange lag values.length) ∧
      (lag ≤ values.length →
        ((autocorrelation lag values : Except Error (Option α)) = .ok none ↔
            ¬values.HasLaggedPair lag) ∧
          ((∃ lagged : α, covariance {} values earlier = .ok (some lagged)) →
            ∃ whole : α, variance {} values = .ok (some whole)) ∧
          (values.HasLaggedPair lag →
            autocorrelation lag values =
              .ok (some (products / lagged.card / (squares / present.card) /
                ((values.length - 1 - lag : Int) : ℚ))))) := by
  intro earlier lagged present products squares
  refine ⟨?_, ?_⟩
  · intro cause
    by_cases accepted : lag ≤ values.length
    · rw [autocorrelation_accepted lawful accepted]
      simp [Int.not_lt.mpr accepted]
    · rw [autocorrelation, if_pos (Int.not_le.mp accepted)]
      simp [Int.not_le.mp accepted, eq_comm]
  · intro accepted
    refine ⟨autocorrelation_eq_none_iff lawful accepted, ?_, autocorrelation_exact lawful accepted⟩
    intro covaries
    exact variance_has_value lawful ((covariance_has_value_iff lawful).mp covaries)

/-- A null between the pairs, a negative lag, one below all slots, and one past the end. -/
theorem autocorrelation_outcomes_nulls :
    let values := Sequence.ofOptions #[some (1 : Int8), some 2, none, some 4, some 8]
    values.Lawful ∧ autocorrelation 1 values = .ok (some (24 / 115 : ℚ)) ∧
      autocorrelation (-3) values = .ok (some (16 / 805 : ℚ)) ∧
      autocorrelation (-9) values = .ok (none : Option Float) ∧
      autocorrelation 6 values =
        (.error (.lagOutOfRange 6 5) : Except Error (Option Float)) := by
  intro values
  have lawful : values.Lawful := Sequence.of_options_lawful _
  have outcomes (lag : Int) := autocorrelation_outcomes (α := Float) lawful lag
  have present : values.present.map (Element.exact 0) = [1, 2, 4, 8] := by
    have stored : values.present = [1, 2, 4, 8] := by decide
    rw [stored]
    rfl
  have near : numbers (Element.exact 0) (values.laggedPairs 1) = {(2, 1), (8, 4)} := by
    have stored : values.laggedPairs 1 = [(2, 1), (8, 4)] := by decide
    rw [stored]
    rfl
  have ahead : numbers (Element.exact 0) (values.laggedPairs (-3)) = {(1, 4), (2, 8)} := by
    have stored : values.laggedPairs (-3) = [(1, 4), (2, 8)] := by decide
    rw [stored]
    rfl
  have length : values.length = 5 := rfl
  refine ⟨lawful, ?_, ?_, ?_, ?_⟩
  · have value := ((outcomes 1).2 (by decide)).2.2 ⟨1, by decide⟩
    rw [near, present, length] at value
    refine value.trans ?_
    norm_num [mean, deviationProducts, deviationSquares]
  · have value := ((outcomes (-3)).2 (by decide)).2.2 ⟨0, by decide⟩
    rw [ahead, present, length] at value
    refine value.trans ?_
    norm_num [mean, deviationProducts, deviationSquares]
  · refine ((outcomes (-9)).2 (by decide)).1.mpr ?_
    rintro ⟨index, inside, _, upper, _⟩
    rw [length] at inside upper
    omega
  · exact ((outcomes 6).1 _).mpr ⟨by decide, rfl⟩

end Comoment
