import Comoment.Proofs.Outcomes

/-!
Order of the exact accumulation. As long as a single chunk holds all slots, nothing is rounded
before all pairs are summed, and integer sums do not depend on the order of the pairs. The moments
are then a function of the multiset of the pairs, as expressions in whatever scalars are computed
with.
-/

namespace Comoment

variable {ε α : Type}

namespace ExactSums

theorem of_pairs_perm {first second : List (Int × Int)} (same : first.Perm second) :
    ofPairs first = ofPairs second := by
  have sumX : (first.map Prod.fst).sum = (second.map Prod.fst).sum := (same.map _).sum_eq
  have sumY : (first.map Prod.snd).sum = (second.map Prod.snd).sum := (same.map _).sum_eq
  have sumXY : (first.map fun pair => pair.1 * pair.2).sum =
      (second.map fun pair => pair.1 * pair.2).sum := (same.map _).sum_eq
  rw [ofPairs, ofPairs, same.length_eq, sumX, sumY, sumXY]

theorem moments_canonical [Scalar α] (sums : ExactSums) :
    (sums.moments : Moments α).Canonical := by
  have count := Moments.of_sums_count (α := α) sums
  refine ⟨by omega, ?_⟩
  intro none
  exact if_pos (by omega)

end ExactSums

theorem chunk_windows_single {bound stop : Nat} (inside : 0 < stop) (short : stop ≤ bound) :
    chunkWindows bound 0 stop = [⟨0, stop⟩] := by
  have span : min (max bound 1) (stop - 0) = stop := by omega
  have ended : chunkWindows bound (0 + stop) stop = [] := by
    rw [Nat.zero_add, chunkWindows, if_neg (Nat.lt_irrefl stop)]
  rw [chunkWindows, if_pos inside, span]
  exact congrArg (List.cons _) ended

namespace Moments

variable [Inhabited ε] [Scalar α] {x y : Sequence ε}

theorem exact_of_short (xLawful : x.Lawful) (yLawful : y.Lawful) (toInt : ε → Int) {bound : Nat}
    (short : min x.length y.length ≤ bound) :
    (exact toInt bound x y : Moments α) =
      (ExactSums.ofPairs ((x.pairs y).map fun pair => (toInt pair.1, toInt pair.2))).moments := by
  by_cases inside : 0 < min x.length y.length
  · rw [exact_eq_foldl, chunk_windows_single inside short, List.foldl_cons, List.foldl_nil]
    have summed := ExactSums.of_runs_eq xLawful yLawful toInt ⟨0, min x.length y.length⟩
    rw [Run.slots, ← List.range_eq_range'] at summed
    unfold mergeWindow
    simp only [summed]
    change (if (ExactSums.ofPairs ((x.pairs y).map _)).count = 0 then _ else _) = _
    split
    · rename_i none
      exact (if_pos none).symm
    · exact empty_merge (ExactSums.moments_canonical _)
  · have none : x.pairs y = [] := by
      rw [Sequence.pairs, Nat.eq_zero_of_not_pos inside]
      rfl
    rw [exact_of_no_pairs xLawful yLawful toInt bound none, none]
    rfl

end Moments

/-- The exact accumulation takes all slots that both sequences have in a single chunk. -/
def Chunk.Undivided (chunk : Chunk ε) (bitWidth : Nat) : Prop :=
  min chunk.x.length chunk.y.length ≤ chunkBound bitWidth

def Sequence.present (values : Sequence ε) : List ε := values.toOptions.filterMap id

def Chunk.twice (values : Sequence ε) (lawful : values.Lawful) : Chunk ε :=
  ⟨values, values, lawful, lawful⟩

theorem Chunk.twice_pairs (values : Sequence ε) :
    values.pairs values = values.present.map fun value => (value, value) := by
  unfold Sequence.pairs Sequence.present Sequence.toOptions
  rw [Nat.min_self, List.filterMap_map, List.map_filterMap]
  congr 1
  funext index
  rw [Sequence.pairAt?, Function.comp_apply, id]
  cases values.get? index <;> rfl

variable [Element ε] [Scalar α] {bitWidth : Nat}

theorem Element.moments_exact
    (selected : Strategy.select (dataType (ε := ε)) = .ok (.integerExact bitWidth)) :
    ∃ toInt : ε → Int, ∀ (scale : Int) (x y : Sequence ε),
      (moments scale x y : Moments α) = Moments.exact toInt (chunkBound bitWidth) x y := by
  have table := select_dataType (ε := ε)
  rw [selected] at table
  unfold moments
  cases read : reading (ε := ε) with
  | narrow width toInt narrow sizes =>
    rw [read] at table
    cases table
    exact ⟨toInt, fun _ _ _ => rfl⟩
  | wide quantity =>
    rw [read] at table
    cases table

section Perm

variable (selected : Strategy.select (Element.dataType (ε := ε)) = .ok (.integerExact bitWidth))
  {chunk other : Chunk ε} (whole : chunk.Undivided bitWidth) (otherWhole : other.Undivided bitWidth)
  (same : (chunk.x.pairs chunk.y).Perm (other.x.pairs other.y))

include selected whole otherWhole same

theorem Element.moments_perm (scale : Int) :
    (moments scale chunk.x chunk.y : Moments α) = moments scale other.x other.y := by
  obtain ⟨toInt, exact⟩ := moments_exact (α := α) selected
  rw [exact, exact, Moments.exact_of_short chunk.xLawful chunk.yLawful toInt whole,
    Moments.exact_of_short other.xLawful other.yLawful toInt otherWhole,
    ExactSums.of_pairs_perm (same.map _)]

theorem covariance_perm (aligned : chunk.x.length = chunk.y.length)
    (otherAligned : other.x.length = other.y.length) {options : VarianceOptions}
    (skip : options.skipNulls = true) :
    (covariance options chunk.x chunk.y : Except Error (Option α)) =
      covariance options other.x other.y := by
  have moments := Element.moments_perm (α := α) selected whole otherWhole same 0
  rw [covariance_aligned chunk.xLawful chunk.yLawful options aligned,
    covariance_aligned other.xLawful other.yLawful options otherAligned]
  -- with nulls left out, whether there are any does not enter the value
  simp only [CovarianceState.value?, CovarianceState.isAdmitted, CovarianceState.divisor,
    CovarianceState.ofChunk, VarianceOptions.admits, skip, Bool.or_true, if_true, moments]

end Perm

/-- For integers that are summed exactly, two pairs of sequences that each fit in a single chunk and
have the same multiset of pairs, in any order and among any nulls, have the same moments. Where
nulls are left out, sequences of one length also have the same covariance, and those with the same
multiset of values have the same variance. -/
theorem exact_moments_ignore_order
    (selected : Strategy.select (Element.dataType (ε := ε)) = .ok (.integerExact bitWidth)) :
    (∀ chunk other : Chunk ε, chunk.Undivided bitWidth → other.Undivided bitWidth →
        (chunk.x.pairs chunk.y : Multiset (ε × ε)) = other.x.pairs other.y →
        (∀ scale, (Element.moments scale chunk.x chunk.y : Moments α) =
          Element.moments scale other.x other.y) ∧
        (chunk.x.length = chunk.y.length → other.x.length = other.y.length →
          ∀ options : VarianceOptions, options.skipNulls = true →
            (covariance options chunk.x chunk.y : Except Error (Option α)) =
              covariance options other.x other.y)) ∧
      ∀ values others : Sequence ε, values.Lawful → others.Lawful →
        values.length ≤ chunkBound bitWidth → others.length ≤ chunkBound bitWidth →
        (values.present : Multiset ε) = others.present →
        ∀ options : VarianceOptions, options.skipNulls = true →
          (variance options values : Except Error (Option α)) = variance options others := by
  constructor
  · intro chunk other whole otherWhole same
    have permuted := Multiset.coe_eq_coe.mp same
    refine ⟨Element.moments_perm selected whole otherWhole permuted, ?_⟩
    intro aligned otherAligned options skip
    exact covariance_perm selected whole otherWhole permuted aligned otherAligned skip
  · intro values others lawful othersLawful short othersShort same options skip
    have permuted : (values.pairs values).Perm (others.pairs others) := by
      rw [Chunk.twice_pairs, Chunk.twice_pairs]
      exact (Multiset.coe_eq_coe.mp same).map _
    have whole : (Chunk.twice values lawful).Undivided bitWidth :=
      (Nat.min_le_left _ _).trans short
    have othersWhole : (Chunk.twice others othersLawful).Undivided bitWidth :=
      (Nat.min_le_left _ _).trans othersShort
    exact covariance_perm selected whole othersWhole permuted rfl rfl skip

/-- Other orders, lengths and nulls, with one pair that occurs twice. -/
theorem exact_moments_ignore_order_nulls :
    let chunk := Chunk.ofOptions #[some (3 : Int8), none, some 3, some 5]
      #[some 1, some 4, some 1, some 7]
    let other := Chunk.ofOptions #[some (5 : Int8), some 3, some 3] #[some 7, some 1, some 1]
    let longer := Chunk.ofOptions #[some (3 : Int8), some 3, some 5, some 9]
      #[some 1, some 1, some 7]
    let values := Sequence.ofOptions #[some (2 : Int8), none, some 9]
    let others := Sequence.ofOptions #[some (9 : Int8), some 2]
    Strategy.select (Element.dataType (ε := Int8)) = .ok (.integerExact 8) ∧
      (Element.moments 0 chunk.x chunk.y : Moments Float) = Element.moments 0 longer.x longer.y ∧
      (covariance { ddof := 1 } chunk.x chunk.y : Except Error (Option Float)) =
        covariance { ddof := 1 } other.x other.y ∧
      (variance {} values : Except Error (Option Float)) = variance {} others := by
  intro chunk other longer values others
  have selected : Strategy.select (Element.dataType (ε := Int8)) = .ok (.integerExact 8) := rfl
  have ignores := exact_moments_ignore_order (α := Float) selected
  have whole : chunk.Undivided 8 := (by decide : min 4 4 ≤ chunkBound 8)
  have otherWhole : other.Undivided 8 := (by decide : min 3 3 ≤ chunkBound 8)
  have longerWhole : longer.Undivided 8 := (by decide : min 4 3 ≤ chunkBound 8)
  have same : (chunk.x.pairs chunk.y : Multiset (Int8 × Int8)) = other.x.pairs other.y := by
    decide
  have longerSame : (chunk.x.pairs chunk.y : Multiset (Int8 × Int8)) =
      longer.x.pairs longer.y := by
    decide
  have moments := (ignores.1 chunk longer whole longerWhole longerSame).1
  have covariances := (ignores.1 chunk other whole otherWhole same).2
  exact ⟨selected, moments 0, covariances rfl rfl { ddof := 1 } rfl,
    ignores.2 values others (Sequence.of_options_lawful _) (Sequence.of_options_lawful _)
      (by decide) (by decide) (by decide) {} rfl⟩

end Comoment
