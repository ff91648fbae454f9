import Comoment.Correlation
import Comoment.Proofs.Counts
import Mathlib.Algebra.Group.Prod
import Mathlib.Tactic.LinearCombination

/-!
The laws of merging without rounding, for whatever numbers stand in the moments. Moments amount to
plain totals: the count, the sum of each component and the sum of the products. Merging adds the
totals, and the totals give the moments back, so merging inherits the laws of addition.
-/

namespace Comoment

namespace Moments

/-- The count, the sums of both components and the sum of their products. -/
def totals (moments : Moments ℚ) : ℤ × ℚ × ℚ × ℚ :=
  (moments.count, moments.meanX * moments.count, moments.meanY * moments.count,
    moments.comoment + moments.meanX * moments.meanY * moments.count)

theorem add_empty_totals (sums : ℤ × ℚ × ℚ × ℚ) : sums + (empty : Moments ℚ).totals = sums := by
  simp [totals, empty, Prod.ext_iff]

theorem merged_mean_mul {weight₁ weight₂ : ℚ} (positive : weight₁ + weight₂ ≠ 0)
    (mean₁ mean₂ : ℚ) :
    (mean₁ * weight₁ + mean₂ * weight₂) / (weight₁ + weight₂) * (weight₁ + weight₂) =
      mean₁ * weight₁ + mean₂ * weight₂ := div_mul_cancel₀ _ positive

variable {first second third : Moments ℚ}

theorem totals_merge (firstCanonical : first.Canonical) (secondCanonical : second.Canonical) :
    (first.merge second).totals = first.totals + second.totals := by
  by_cases secondEmpty : second.count = 0
  · rw [merge, if_pos secondEmpty, secondCanonical.of_no_pairs secondEmpty, add_empty_totals]
  · by_cases firstEmpty : first.count = 0
    · rw [merge, if_neg secondEmpty, if_pos firstEmpty, firstCanonical.of_no_pairs firstEmpty,
        add_comm, add_empty_totals]
    · have firstCount := firstCanonical.count_nonneg
      have secondCount := secondCanonical.count_nonneg
      have positive : (first.count : ℚ) + second.count ≠ 0 := by
        exact_mod_cast (by omega : first.count + second.count ≠ 0)
      have meanX := merged_mean_mul positive first.meanX second.meanX
      have meanY := merged_mean_mul positive first.meanY second.meanY
      rw [merge, if_neg secondEmpty, if_neg firstEmpty]
      simp only [totals, Scalar.of_int_rat, Int.cast_add, Prod.mk_add_mk, Prod.mk.injEq, true_and]
      refine ⟨meanX, meanY, ?_⟩
      -- the deviations of the means cancel against the product of the merged means
      generalize (first.meanX * first.count + second.meanX * second.count) /
        ((first.count : ℚ) + second.count) = centerX at *
      generalize (first.meanY * first.count + second.meanY * second.count) /
        ((first.count : ℚ) + second.count) = centerY at *
      linear_combination centerY * meanX + centerX * meanY

theorem totals_injective (firstCanonical : first.Canonical) (secondCanonical : second.Canonical)
    (same : first.totals = second.totals) : first = second := by
  simp only [totals, Prod.mk.injEq] at same
  obtain ⟨count, sumX, sumY, sumXY⟩ := same
  by_cases none : first.count = 0
  · rw [firstCanonical.of_no_pairs none, secondCanonical.of_no_pairs (count ▸ none)]
  · have nonzero : (second.count : ℚ) ≠ 0 := by exact_mod_cast count ▸ none
    rw [count] at sumX sumY sumXY
    have meanX : first.meanX = second.meanX := mul_right_cancel₀ nonzero sumX
    have meanY : first.meanY = second.meanY := mul_right_cancel₀ nonzero sumY
    rw [meanX, meanY] at sumXY
    exact Moments.ext count meanX meanY (add_right_cancel sumXY)

theorem merge_assoc (firstCanonical : first.Canonical) (secondCanonical : second.Canonical)
    (thirdCanonical : third.Canonical) :
    (first.merge second).merge third = first.merge (second.merge third) := by
  apply totals_injective ((firstCanonical.merge secondCanonical).merge thirdCanonical)
    (firstCanonical.merge (secondCanonical.merge thirdCanonical))
  rw [totals_merge (firstCanonical.merge secondCanonical) thirdCanonical,
    totals_merge firstCanonical secondCanonical,
    totals_merge firstCanonical (secondCanonical.merge thirdCanonical),
    totals_merge secondCanonical thirdCanonical, add_assoc]

theorem merge_comm (firstCanonical : first.Canonical) (secondCanonical : second.Canonical) :
    first.merge second = second.merge first := by
  apply totals_injective (firstCanonical.merge secondCanonical)
    (secondCanonical.merge firstCanonical)
  rw [totals_merge firstCanonical secondCanonical, totals_merge secondCanonical firstCanonical,
    add_comm]

def mergedMean (count₁ count₂ : Int) (mean₁ mean₂ : ℚ) : ℚ :=
  if count₂ = 0 then mean₁
  else if count₁ = 0 then mean₂
  else (mean₁ * count₁ + mean₂ * count₂) / (count₁ + count₂ : Int)

theorem merge_means (first second : Moments ℚ) :
    (first.merge second).meanX = mergedMean first.count second.count first.meanX second.meanX ∧
      (first.merge second).meanY =
        mergedMean first.count second.count first.meanY second.meanY := by
  unfold merge mergedMean
  split
  · exact ⟨rfl, rfl⟩
  · split <;> exact ⟨rfl, rfl⟩

end Moments

namespace Spread

def diagonal (spread : Spread ℚ) : Moments ℚ :=
  ⟨spread.count, spread.mean, spread.mean, spread.squares⟩

/-- Squared deviations merged along with the count and the mean that they belong to. -/
def merge (first second : Spread ℚ) : Spread ℚ where
  count := first.count + second.count
  mean := Moments.mergedMean first.count second.count first.mean second.mean
  squares := first.mergedSquares second

theorem diagonal_merge (first second : Spread ℚ) :
    (first.merge second).diagonal = first.diagonal.merge second.diagonal := by
  obtain ⟨meanX, meanY⟩ := Moments.merge_means first.diagonal second.diagonal
  apply Moments.ext
  · exact (Moments.merge_count first.diagonal second.diagonal).symm
  · exact meanX.symm
  · exact meanY.symm
  · exact merged_squares_eq_merge first second

theorem diagonal_injective {first second : Spread ℚ} (same : first.diagonal = second.diagonal) :
    first = second := by
  obtain ⟨_, _, _⟩ := first
  obtain ⟨_, _, _⟩ := second
  simp only [diagonal, Moments.mk.injEq] at same
  obtain ⟨rfl, rfl, -, rfl⟩ := same
  rfl

variable {first second third : Spread ℚ}

theorem merge_assoc (firstCanonical : first.diagonal.Canonical)
    (secondCanonical : second.diagonal.Canonical) (thirdCanonical : third.diagonal.Canonical) :
    (first.merge second).merge third = first.merge (second.merge third) := by
  apply diagonal_injective
  simp only [diagonal_merge]
  exact Moments.merge_assoc firstCanonical secondCanonical thirdCanonical

theorem merge_comm (firstCanonical : first.diagonal.Canonical)
    (secondCanonical : second.diagonal.Canonical) : first.merge second = second.merge first := by
  apply diagonal_injective
  simp only [diagonal_merge]
  exact Moments.merge_comm firstCanonical secondCanonical

end Spread

namespace CorrelationState

theorem merge_spreads {ε : Type} (first second : CorrelationState ε ℚ) :
    (first.merge second).spreadX = first.spreadX.merge second.spreadX ∧
      (first.merge second).spreadY = first.spreadY.merge second.spreadY := by
  have count := Moments.merge_count first.covariance.moments second.covariance.moments
  obtain ⟨meanX, meanY⟩ := Moments.merge_means first.covariance.moments second.covariance.moments
  unfold spreadX spreadY merge CovarianceState.merge
  simp only [count, meanX, meanY]
  exact ⟨rfl, rfl⟩

end CorrelationState

/-- Canonical moments are a commutative monoid under merging, with the empty moments as its
identity. Merging squared deviations is the same operation on pairs of equal components, so it is
associative and commutative along with the means, which are those of the covariance. -/
theorem merging_is_commutative_monoid {first second third : Moments ℚ}
    (firstCanonical : first.Canonical) (secondCanonical : second.Canonical)
    (thirdCanonical : third.Canonical) {spread₁ spread₂ spread₃ : Spread ℚ}
    (canonical₁ : spread₁.diagonal.Canonical) (canonical₂ : spread₂.diagonal.Canonical)
    (canonical₃ : spread₃.diagonal.Canonical) :
    ((first.merge second).merge third = first.merge (second.merge third) ∧
        first.merge second = second.merge first ∧
        Moments.empty.merge first = first ∧ first.merge .empty = first ∧
        (first.merge second).Canonical ∧ (Moments.empty : Moments ℚ).Canonical) ∧
      (spread₁.mergedSquares spread₂ = (spread₁.diagonal.merge spread₂.diagonal).comoment ∧
        (spread₁.merge spread₂).diagonal = spread₁.diagonal.merge spread₂.diagonal ∧
        (spread₁.merge spread₂).merge spread₃ = spread₁.merge (spread₂.merge spread₃) ∧
        spread₁.merge spread₂ = spread₂.merge spread₁) ∧
      ∀ (ε : Type) (state other : CorrelationState ε ℚ),
        (state.merge other).spreadX = state.spreadX.merge other.spreadX ∧
          (state.merge other).spreadY = state.spreadY.merge other.spreadY := by
  refine ⟨⟨?_, ?_, ?_, ?_, ?_, ?_⟩, ⟨?_, ?_, ?_, ?_⟩, ?_⟩
  · exact Moments.merge_assoc firstCanonical secondCanonical thirdCanonical
  · exact Moments.merge_comm firstCanonical secondCanonical
  · exact Moments.empty_merge firstCanonical
  · exact Moments.merge_empty first
  · exact firstCanonical.merge secondCanonical
  · exact Moments.empty_canonical
  · exact Spread.merged_squares_eq_merge spread₁ spread₂
  · exact Spread.diagonal_merge spread₁ spread₂
  · exact Spread.merge_assoc canonical₁ canonical₂ canonical₃
  · exact Spread.merge_comm canonical₁ canonical₂
  · exact fun _ => CorrelationState.merge_spreads

/-- Moments that no data has, since their squares would be negative, beside those of no pairs. -/
theorem merging_is_commutative_monoid_negative :
    let first : Moments ℚ := ⟨2, 1, 3, -5⟩
    let third : Moments ℚ := ⟨1, -2, 0, 7⟩
    let spread₁ : Spread ℚ := ⟨3, 1, -2⟩
    let spread₂ : Spread ℚ := ⟨1, 4, 0⟩
    let nothing : Spread ℚ := ⟨0, 0, 0⟩
    (first.Canonical ∧ third.Canonical) ∧
      (spread₁.diagonal.Canonical ∧ spread₂.diagonal.Canonical ∧ nothing.diagonal.Canonical) ∧
      (first.merge .empty).merge third = first.merge (Moments.empty.merge third) ∧
      (spread₁.merge spread₂).merge nothing = spread₁.merge (spread₂.merge nothing) := by
  intro first third spread₁ spread₂ nothing
  have firstCanonical : first.Canonical := Moments.canonical_of_some (by decide)
  have thirdCanonical : third.Canonical := Moments.canonical_of_some (by decide)
  have canonical₁ : spread₁.diagonal.Canonical := Moments.canonical_of_some (by decide)
  have canonical₂ : spread₂.diagonal.Canonical := Moments.canonical_of_some (by decide)
  have canonical₃ : nothing.diagonal.Canonical := Moments.empty_canonical
  have laws := merging_is_commutative_monoid firstCanonical Moments.empty_canonical thirdCanonical
    canonical₁ canonical₂ canonical₃
  exact ⟨⟨firstCanonical, thirdCanonical⟩, ⟨canonical₁, canonical₂, canonical₃⟩, laws.1.1,
    laws.2.1.2.2.1⟩

end Comoment
