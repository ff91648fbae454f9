import Comoment.Moments.Basic
import Comoment.Proofs.Rational
import Mathlib.Algebra.BigOperators.Ring.Multiset

/-!
The moments of a multiset of pairs of rational numbers, straight from their definitions. Merging
the moments of two multisets gives the moments of their sum, and merging sums of squared deviations
is the same law for pairs of equal components.
-/

namespace Comoment

def mean (values : Multiset ℚ) : ℚ := values.sum / values.card

def deviationProducts (pairs : Multiset (ℚ × ℚ)) (centerX centerY : ℚ) : ℚ :=
  (pairs.map fun pair => (pair.1 - centerX) * (pair.2 - centerY)).sum

def deviationSquares (values : Multiset ℚ) (center : ℚ) : ℚ :=
  (values.map fun value => (value - center) ^ 2).sum

theorem deviation_products_eq (pairs : Multiset (ℚ × ℚ)) (centerX centerY : ℚ) :
    deviationProducts pairs centerX centerY =
      (pairs.map fun pair => pair.1 * pair.2).sum - centerY * (pairs.map Prod.fst).sum -
        centerX * (pairs.map Prod.snd).sum + pairs.card * (centerX * centerY) := by
  unfold deviationProducts
  induction pairs using Multiset.induction_on with
  | empty => simp
  | cons pair pairs ih =>
    simp only [Multiset.map_cons, Multiset.sum_cons, Multiset.card_cons, ih, Nat.cast_succ]
    ring

theorem deviation_products_add (first second : Multiset (ℚ × ℚ)) (centerX centerY : ℚ) :
    deviationProducts (first + second) centerX centerY =
      deviationProducts first centerX centerY + deviationProducts second centerX centerY := by
  simp [deviationProducts]

theorem card_mul_mean (values : Multiset ℚ) : values.card * mean values = values.sum := by
  by_cases empty : values = 0
  · simp [empty]
  · have positive : (values.card : ℚ) ≠ 0 := by simpa using empty
    unfold mean
    field_simp

theorem deviation_products_shift (pairs : Multiset (ℚ × ℚ)) (centerX centerY : ℚ) :
    deviationProducts pairs centerX centerY =
      deviationProducts pairs (mean (pairs.map Prod.fst)) (mean (pairs.map Prod.snd)) +
        pairs.card * (mean (pairs.map Prod.fst) - centerX) *
          (mean (pairs.map Prod.snd) - centerY) := by
  have sumX := card_mul_mean (pairs.map Prod.fst)
  have sumY := card_mul_mean (pairs.map Prod.snd)
  rw [Multiset.card_map] at sumX sumY
  rw [deviation_products_eq, deviation_products_eq, ← sumX, ← sumY]
  ring

theorem deviation_squares_eq (values : Multiset ℚ) (center : ℚ) :
    deviationSquares values center =
      deviationProducts (values.map fun value => (value, value)) center center := by
  unfold deviationSquares deviationProducts
  rw [Multiset.map_map]
  congr 1
  apply Multiset.map_congr rfl
  intro value _
  exact pow_two (value - center)

theorem merged_mean {first second : Multiset (ℚ × ℚ)} (firstSome : first ≠ 0)
    (secondSome : second ≠ 0) (component : ℚ × ℚ → ℚ) :
    (mean (first.map component) * (Scalar.ofInt first.card : ℚ) +
        mean (second.map component) * (Scalar.ofInt second.card : ℚ)) /
        (Scalar.ofInt (first.card + second.card) : ℚ) =
      mean ((first + second).map component) := by
  have positive₁ : (first.card : ℚ) ≠ 0 := by simpa using firstSome
  have positive₂ : (second.card : ℚ) ≠ 0 := by simpa using secondSome
  simp only [mean, Scalar.of_int_rat, Multiset.map_add, Multiset.sum_add, Multiset.card_add,
    Multiset.card_map, Int.cast_add, Int.cast_natCast, Nat.cast_add]
  field_simp

attribute [ext] Moments

namespace Moments

def ofPairs (pairs : Multiset (ℚ × ℚ)) : Moments ℚ where
  count := pairs.card
  meanX := mean (pairs.map Prod.fst)
  meanY := mean (pairs.map Prod.snd)
  comoment := deviationProducts pairs (mean (pairs.map Prod.fst)) (mean (pairs.map Prod.snd))

theorem of_pairs_zero : ofPairs 0 = empty := by
  simp [ofPairs, empty, mean, deviationProducts]

theorem of_pairs_count (pairs : Multiset (ℚ × ℚ)) :
    (ofPairs pairs).count = 0 ↔ pairs = 0 := by
  simp [ofPairs]

theorem of_pairs_comoment (pairs : Multiset (ℚ × ℚ)) :
    (ofPairs pairs).comoment =
      (pairs.map fun pair => pair.1 * pair.2).sum -
        (pairs.map Prod.fst).sum * (pairs.map Prod.snd).sum / pairs.card := by
  by_cases empty : pairs = 0
  · simp [empty, ofPairs, deviationProducts]
  · have positive : (pairs.card : ℚ) ≠ 0 := by simpa using empty
    simp only [ofPairs, deviation_products_eq, mean, Multiset.card_map]
    field_simp
    ring

/-- Merging is a homomorphism from the sum of multisets. -/
theorem merge_of_pairs (first second : Multiset (ℚ × ℚ)) :
    (ofPairs first).merge (ofPairs second) = ofPairs (first + second) := by
  unfold merge
  by_cases secondEmpty : second = 0
  · rw [if_pos ((of_pairs_count second).mpr secondEmpty), secondEmpty, add_zero]
  · rw [if_neg (mt (of_pairs_count second).mp secondEmpty)]
    by_cases firstEmpty : first = 0
    · rw [if_pos ((of_pairs_count first).mpr firstEmpty), firstEmpty, zero_add]
    · rw [if_neg (mt (of_pairs_count first).mp firstEmpty)]
      have meanX := merged_mean firstEmpty secondEmpty Prod.fst
      have meanY := merged_mean firstEmpty secondEmpty Prod.snd
      apply Moments.ext
      · simp [ofPairs]
      · exact meanX
      · exact meanY
      · have whole : (ofPairs (first + second)).comoment =
            deviationProducts first (mean ((first + second).map Prod.fst))
                (mean ((first + second).map Prod.snd)) +
              deviationProducts second (mean ((first + second).map Prod.fst))
                (mean ((first + second).map Prod.snd)) := deviation_products_add ..
        rw [whole, deviation_products_shift first, deviation_products_shift second, ← meanX,
          ← meanY]
        simp only [ofPairs, Scalar.of_int_rat, Int.cast_natCast]
        ring

end Moments

namespace Spread

/-- Merging squared deviations is merging the moments of pairs of equal components. -/
theorem merged_squares_eq_merge (first second : Spread ℚ) :
    first.mergedSquares second =
      ((⟨first.count, first.mean, first.mean, first.squares⟩ : Moments ℚ).merge
        ⟨second.count, second.mean, second.mean, second.squares⟩).comoment := by
  unfold mergedSquares Moments.merge
  simp only
  split
  · rfl
  · split
    · rfl
    · have total : (Scalar.ofInt (first.count + second.count) : ℚ) =
          Scalar.ofInt first.count + Scalar.ofInt second.count := by
        simp [Scalar.of_int_rat]
      rw [total]
      ring

def ofValues (values : Multiset ℚ) : Spread ℚ where
  count := values.card
  mean := Comoment.mean values
  squares := deviationSquares values (Comoment.mean values)

theorem of_values_moments (values : Multiset ℚ) :
    (⟨(ofValues values).count, (ofValues values).mean, (ofValues values).mean,
      (ofValues values).squares⟩ : Moments ℚ) =
      Moments.ofPairs (values.map fun value => (value, value)) := by
  simp [ofValues, Moments.ofPairs, deviation_squares_eq, Multiset.map_map]

theorem merged_squares_of_values (first second : Multiset ℚ) :
    (ofValues first).mergedSquares (ofValues second) = (ofValues (first + second)).squares := by
  have union := of_values_moments (first + second)
  rw [merged_squares_eq_merge, of_values_moments, of_values_moments, Moments.merge_of_pairs,
    ← Multiset.map_add, ← union]

end Spread

end Comoment
