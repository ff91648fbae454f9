import Comoment.Proofs.CorrelationBounds
import Comoment.Proofs.ExactDoubles
import Comoment.Proofs.MachineIntegers

/-!
What the exact sums hand over to the scalars. The product of the two sums is divided in integers, so
that the sum of centered products comes in two parts: a whole number that is off by less than one,
and a remainder smaller than the count. However large the sums are, both parts are as small as the
result and the count.
-/

namespace Comoment

theorem signed_nat_abs_le {bits : Nat} {value result : Int}
    (fits : signed bits value = some result) : result.natAbs ≤ 2 ^ (bits - 1) := by
  obtain rfl := signed_of_some fits
  have bounds := signed_eq_some_iff.mp fits
  have magnitude : ((2 ^ (bits - 1) : Nat) : Int) = 2 ^ (bits - 1) := by push_cast; rfl
  omega

theorem divided_checked_of_some {dividend divisor quotient remainder : Int}
    (divided : dividedChecked dividend divisor = some (quotient, remainder)) :
    quotient = dividend.tdiv divisor ∧ remainder = dividend.tmod divisor := by
  unfold dividedChecked at divided
  split at divided
  · simp at divided
  · simp only [Option.bind_eq_bind, Option.bind_eq_some_iff, Option.pure_def, Option.some.injEq,
      Prod.mk.injEq] at divided
    obtain ⟨result, fits, rfl, rfl⟩ := divided
    exact ⟨signed_of_some fits, rfl⟩

namespace ExactSums

def ofPairsChecked (pairs : List (Int × Int)) : Option ExactSums :=
  pairs.foldlM (fun sums pair => sums.addChecked pair.1 pair.2) empty

def whole (sums : ExactSums) : Int := sums.sumXY - sums.quotient

def centered (sums : ExactSums) : ℚ := sums.sumXY - sums.sumX * sums.sumY / sums.count

section Machine

theorem add_checked_of_some {sums reached : ExactSums} {x y : Int}
    (added : sums.addChecked x y = some reached) : reached = sums.add x y := by
  simp only [addChecked, Option.bind_eq_bind, Option.bind_eq_some_iff, Option.pure_def,
    Option.some.injEq] at added
  obtain ⟨x', xFits, y', yFits, sumX, sumXFits, sumY, sumYFits, product, productFits, sumXY,
    sumXYFits, count, countFits, rfl⟩ := added
  obtain rfl := signed_of_some xFits
  obtain rfl := signed_of_some yFits
  obtain rfl := signed_of_some productFits
  rw [signed_of_some sumXFits, signed_of_some sumYFits, signed_of_some sumXYFits,
    signed_of_some countFits]
  rfl

def SumsFit (sums : ExactSums) : Prop :=
  sums.sumX.natAbs ≤ 2 ^ 63 ∧ sums.sumY.natAbs ≤ 2 ^ 63

theorem add_checked_fits {sums reached : ExactSums} {x y : Int}
    (added : sums.addChecked x y = some reached) : reached.SumsFit := by
  simp only [addChecked, Option.bind_eq_bind, Option.bind_eq_some_iff, Option.pure_def,
    Option.some.injEq] at added
  obtain ⟨_, _, _, _, sumX, sumXFits, sumY, sumYFits, _, _, _, _, _, _, rfl⟩ := added
  exact ⟨signed_nat_abs_le sumXFits, signed_nat_abs_le sumYFits⟩

theorem of_pairs_checked_fits {pairs : List (Int × Int)} {reached : ExactSums}
    (summed : ofPairsChecked pairs = some reached) : reached.SumsFit := by
  have initial : empty.SumsFit := ⟨by decide, by decide⟩
  unfold ofPairsChecked at summed
  generalize empty = sums at summed initial
  induction pairs generalizing sums with
  | nil => exact Option.some.inj summed ▸ initial
  | cons pair pairs ih =>
    rw [List.foldlM_cons, Option.bind_eq_bind, Option.bind_eq_some_iff] at summed
    obtain ⟨next, added, rest⟩ := summed
    exact ih next rest (add_checked_fits added)

/-- Of the operations that read the sums only the last subtraction can leave its range. -/
theorem comoment_checked_iff {α : Type} [Scalar α] {sums : ExactSums} (fits : sums.SumsFit)
    (some : sums.count ≠ 0) :
    sums.comomentChecked = Option.some (sums.comoment : α) ↔
      -2 ^ 127 ≤ sums.whole ∧ sums.whole < 2 ^ 127 := by
  rw [comoment_checked_of_sums fits.1 fits.2 some, ExactSums.comoment, if_neg some]
  change (signed 128 sums.whole).map _ = _ ↔ _
  constructor
  · intro computed
    obtain ⟨difference, differenceFits, _⟩ := Option.map_eq_some_iff.mp computed
    obtain rfl := signed_of_some differenceFits
    exact signed_eq_some_iff.mp differenceFits
  · intro bounds
    rw [signed_eq_some_iff.mpr bounds]
    rfl

/-- Where no addition leaves its range, the sums are those of the integers. -/
theorem of_pairs_checked_of_some {pairs : List (Int × Int)} {reached : ExactSums}
    (summed : ofPairsChecked pairs = some reached) : reached = ofPairs pairs := by
  unfold ofPairsChecked at summed
  change _ = ofPairs ([] ++ pairs)
  rw [← foldl_add_eq]
  change pairs.foldlM _ (ofPairs []) = _ at summed
  generalize ofPairs [] = sums at summed
  induction pairs generalizing sums with
  | nil => exact (Option.some.inj summed).symm
  | cons pair pairs ih =>
    rw [List.foldlM_cons, Option.bind_eq_bind, Option.bind_eq_some_iff] at summed
    obtain ⟨next, added, rest⟩ := summed
    rw [List.foldl_cons, ← add_checked_of_some added]
    exact ih next rest

theorem comoment_checked_of_some {α : Type} [Scalar α] {sums : ExactSums} {comoment : α}
    (computed : sums.comomentChecked = some comoment) : comoment = sums.comoment := by
  unfold comomentChecked at computed
  unfold ExactSums.comoment
  split at computed
  · rename_i none
    rw [if_pos none]
    exact (Option.some.inj computed).symm
  · rename_i some
    simp only [Option.bind_eq_bind, Option.bind_eq_some_iff, Option.pure_def, Option.some.injEq]
      at computed
    obtain ⟨_, productFits, ⟨quotient, remainder⟩, divided, _, differenceFits, rfl⟩ := computed
    obtain rfl := signed_of_some productFits
    obtain ⟨rfl, rfl⟩ := divided_checked_of_some divided
    rw [if_neg some, signed_of_some differenceFits]
    rfl

end Machine

section Narrow

variable {bitWidth : Nat} {pairs : List (Int × Int)}

theorem of_pairs_checked_eq {α : Type} [Scalar α] (positive : 0 < bitWidth)
    (narrow : bitWidth ≤ 32)
    (small : ∀ pair ∈ pairs, pair.1.natAbs < 2 ^ bitWidth ∧ pair.2.natAbs < 2 ^ bitWidth)
    (bounded : pairs.length ≤ chunkBound bitWidth) :
    ofPairsChecked pairs = some (ofPairs pairs) ∧
      (ofPairs pairs).comomentChecked = some ((ofPairs pairs).comoment : α) := by
  have short : pairs.length < 2 ^ 63 := by
    apply Nat.lt_of_le_of_lt bounded
    rw [chunkBound, Nat.one_shiftLeft]
    exact Nat.pow_lt_pow_right (by decide) (by omega)
  have fits := chunk_fits narrow bounded short
  have added := add_pairs_checked_eq (empty_bounded (2 ^ bitWidth - 1)) pairs
    (by
      intro pair found
      obtain ⟨xSmall, ySmall⟩ := small pair found
      exact ⟨by omega, by omega⟩)
    (fits.of_le (Nat.le_of_eq (Nat.zero_add _)))
  have summed : pairs.foldl (fun sums pair => sums.add pair.1 pair.2) empty = ofPairs pairs :=
    foldl_add_eq [] pairs
  rw [summed] at added
  exact ⟨added.1, comoment_checked_eq added.2.1 fits⟩

end Narrow

section Parts

variable {sums : ExactSums} (some : sums.count ≠ 0)

include some

theorem comoment_eq_parts {α : Type} [Scalar α] :
    (sums.comoment : α) =
      Scalar.ofInt sums.whole - Scalar.ofInt sums.remainder / Scalar.ofInt sums.count :=
  if_neg some

theorem remainder_lt : |sums.remainder| < sums.count := by
  have rest := Int.natAbs_tmod (sums.sumX * sums.sumY) sums.count
  have below := Nat.mod_lt (sums.sumX * sums.sumY).natAbs (Nat.pos_of_ne_zero some)
  rw [Int.natAbs_natCast] at rest
  rw [Int.abs_eq_natAbs, remainder, rest]
  exact_mod_cast below

theorem whole_sub_fraction : (sums.whole : ℚ) - sums.remainder / sums.count = sums.centered :=
  (comoment_eq_parts (α := ℚ) some).symm.trans (comoment_eq sums some)

/-- The whole part is off by the fraction that the remainder is of the count. -/
theorem whole_near : |(sums.whole : ℚ) - sums.centered| < 1 := by
  have positive : (0 : ℚ) < sums.count := by exact_mod_cast Nat.pos_of_ne_zero some
  have below : |(sums.remainder : ℚ)| < sums.count := by exact_mod_cast remainder_lt some
  rw [← whole_sub_fraction some, sub_sub_cancel, abs_div, abs_of_pos positive]
  exact (div_lt_one positive).mpr below

theorem parts_small {limit : Nat} (few : sums.count ≤ limit)
    (near : |sums.centered| + 1 ≤ (limit : ℚ)) :
    |sums.whole| < limit ∧ |sums.remainder| < limit := by
  have rest := remainder_lt some
  refine ⟨?_, by omega⟩
  have total : |(sums.whole : ℚ)| < limit := by
    calc |(sums.whole : ℚ)|
        = |(sums.whole - sums.centered) + sums.centered| := by rw [sub_add_cancel]
      _ ≤ |(sums.whole : ℚ) - sums.centered| + |sums.centered| := abs_add_le _ _
      _ < 1 + |sums.centered| := by
        have near := whole_near some
        linarith
      _ ≤ limit := by linarith
  exact_mod_cast total

/-- For a variance the remainder is taken from a square, so that nothing is negative. -/
theorem whole_nonneg (equal : sums.sumX = sums.sumY) (nonneg : 0 ≤ sums.centered) :
    0 ≤ sums.whole ∧ (sums.remainder ≠ 0 → 1 ≤ sums.whole) := by
  have positive : (0 : ℚ) < sums.count := by exact_mod_cast Nat.pos_of_ne_zero some
  have remainderNonneg : 0 ≤ sums.remainder := by
    rw [remainder, equal]
    exact Int.tmod_nonneg _ (mul_self_nonneg sums.sumY)
  have parts := whole_sub_fraction some
  have fraction : (0 : ℚ) ≤ sums.remainder / sums.count :=
    div_nonneg (by exact_mod_cast remainderNonneg) positive.le
  constructor
  · have total : (0 : ℚ) ≤ sums.whole := by linarith
    exact_mod_cast total
  · intro nonzero
    have above : (0 : ℚ) < sums.remainder := by
      exact_mod_cast lt_of_le_of_ne remainderNonneg (Ne.symm nonzero)
    have total : (0 : ℚ) < sums.whole := by
      have fraction := div_pos above positive
      linarith
    exact_mod_cast total

end Parts

section Pairs

variable {pairs : List (Int × Int)}

theorem of_pairs_count_ne_zero (nonempty : pairs ≠ []) : (ofPairs pairs).count ≠ 0 :=
  mt List.length_eq_zero_iff.mp nonempty

theorem of_pairs_centered (nonempty : pairs ≠ []) :
    (ofPairs pairs).centered = (Moments.ofPairs (numbers Int.cast pairs)).comoment := by
  have some := of_pairs_count_ne_zero nonempty
  have moments := of_pairs_moments pairs
  rw [ExactSums.moments, if_neg some] at moments
  rw [← moments, centered, ← comoment_eq _ some]

theorem of_pairs_centered_nonneg (nonempty : pairs ≠ [])
    (equal : ∀ pair ∈ pairs, pair.1 = pair.2) : 0 ≤ (ofPairs pairs).centered := by
  have same : ∀ pair ∈ numbers (Int.cast : Int → ℚ) pairs, pair.1 = pair.2 := by
    intro pair found
    obtain ⟨stored, listed, rfl⟩ := List.mem_map.mp (Multiset.mem_coe.mp found)
    exact congrArg Int.cast (equal stored listed)
  obtain ⟨components, squares⟩ := deviations_of_equal_components same
  rw [of_pairs_centered nonempty]
  unfold Moments.ofPairs
  dsimp only
  rw [← components, squares]
  exact deviation_squares_nonneg _ _

theorem of_pairs_same_sums (equal : ∀ pair ∈ pairs, pair.1 = pair.2) :
    (ofPairs pairs).sumX = (ofPairs pairs).sumY :=
  congrArg List.sum (List.map_congr_left equal)

end Pairs

/-- What the two parts have to be: exact together, and held by doubles without rounding if the
result and the count are below their precision. -/
structure Splits (sums : ExactSums) : Prop where
  divided : sums.sumX * sums.sumY = sums.quotient * sums.count + sums.remainder
  remainder_lt : |sums.remainder| < sums.count
  exact : (sums.whole : ℚ) - sums.remainder / sums.count = sums.centered
  near : |(sums.whole : ℚ) - sums.centered| < 1
  small : sums.count ≤ 2 ^ 53 → |sums.centered| + 1 ≤ 2 ^ 53 →
    |sums.whole| < 2 ^ 53 ∧ |sums.remainder| < 2 ^ 53 ∧
      HoldsExactly (Scalar.ofInt sums.whole) sums.whole ∧
      HoldsExactly (Scalar.ofInt sums.remainder) sums.remainder

theorem splits {sums : ExactSums} (some : sums.count ≠ 0) : sums.Splits where
  divided := (Int.tdiv_mul_add_tmod ..).symm
  remainder_lt := remainder_lt some
  exact := whole_sub_fraction some
  near := whole_near some
  small := by
    intro few near
    obtain ⟨whole, rest⟩ := parts_small some few (by exact_mod_cast near)
    exact ⟨whole, rest, of_int_exact whole, of_int_exact rest⟩

/-- The sums of any pairs split into exact parts below the precision of a double, and only these
parts are converted. In machine integers nothing else is computed; once the sums are, the result is
if the whole part fits, as it does below that precision. A chunk of a narrow type is always
computed. -/
theorem comoment_parts_small {pairs : List (Int × Int)} (nonempty : pairs ≠ []) :
    let sums := pairs.foldl (fun sums pair => sums.add pair.1 pair.2) empty
    let values := numbers Int.cast pairs
    sums.centered =
        deviationProducts values (mean (values.map Prod.fst)) (mean (values.map Prod.snd)) ∧
      sums.Splits ∧
      ((∀ pair ∈ pairs, pair.1 = pair.2) →
        0 ≤ sums.whole ∧ (sums.remainder ≠ 0 → 1 ≤ sums.whole)) ∧
      (∀ (α : Type) [Scalar α], (sums.comoment : α) =
        Scalar.ofInt sums.whole - Scalar.ofInt sums.remainder / Scalar.ofInt sums.count) ∧
      (∀ reached, ofPairsChecked pairs = some reached → reached = sums ∧
        ∀ (α : Type) [Scalar α],
          (∀ comoment : α, reached.comomentChecked = some comoment → comoment = sums.comoment) ∧
            (reached.comomentChecked = some (sums.comoment : α) ↔
              -2 ^ 127 ≤ sums.whole ∧ sums.whole < 2 ^ 127) ∧
            (sums.count ≤ 2 ^ 53 → |sums.centered| + 1 ≤ 2 ^ 53 →
              reached.comomentChecked = some (sums.comoment : α))) ∧
      ∀ bitWidth, 0 < bitWidth → bitWidth ≤ 32 → pairs.length ≤ chunkBound bitWidth →
        (∀ pair ∈ pairs, pair.1.natAbs < 2 ^ bitWidth ∧ pair.2.natAbs < 2 ^ bitWidth) →
        ofPairsChecked pairs = some sums ∧
          ∀ (α : Type) [Scalar α], sums.comomentChecked = some (sums.comoment : α) := by
  intro sums values
  have summed : sums = ofPairs pairs := foldl_add_eq [] pairs
  clear_value sums
  subst summed
  have some := of_pairs_count_ne_zero nonempty
  refine ⟨of_pairs_centered nonempty, splits some, ?_, ?_, ?_, ?_⟩
  · intro equal
    exact whole_nonneg some (of_pairs_same_sums equal) (of_pairs_centered_nonneg nonempty equal)
  · intro α _
    exact comoment_eq_parts some
  · intro reached reaches
    obtain rfl := of_pairs_checked_of_some reaches
    have fits := of_pairs_checked_fits reaches
    refine ⟨rfl, fun α _ => ⟨fun comoment => comoment_checked_of_some,
      comoment_checked_iff fits some, ?_⟩⟩
    intro few near
    have whole := (splits some).small few near |>.1
    have bounds := abs_lt.mp whole
    exact (comoment_checked_iff fits some).mpr ⟨by omega, by omega⟩
  · intro bitWidth positive narrow bounded small
    exact ⟨(of_pairs_checked_eq (α := ℚ) positive narrow small bounded).1,
      fun α _ => (of_pairs_checked_eq positive narrow small bounded).2⟩

theorem comoment_parts_small_signs :
    let pairs : List (Int × Int) := [(-7, 3), (2, -5), (4, 4)]
    let sums := pairs.foldl (fun sums pair => sums.add pair.1 pair.2) empty
    pairs ≠ [] ∧ sums = ⟨3, -1, 2, -15⟩ ∧ sums.whole = -15 ∧ sums.remainder = -2 ∧
      sums.centered = -15 + 2 / 3 ∧ HoldsExactly (Scalar.ofInt (-15)) (-15) ∧
      HoldsExactly (Scalar.ofInt (-2)) (-2) ∧ ofPairsChecked pairs = some sums := by
  intro pairs sums
  have nonempty : pairs ≠ [] := List.cons_ne_nil _ _
  obtain ⟨_, parts, _, _, _, narrow⟩ := comoment_parts_small nonempty
  change sums.Splits at parts
  have wholeValue : sums.whole = -15 := by decide
  have remainderValue : sums.remainder = -2 := by decide
  have few : sums.count = 3 := rfl
  have exact := parts.exact
  rw [wholeValue, remainderValue, few] at exact
  have centered : sums.centered = -15 + 2 / 3 := by
    rw [← exact]
    norm_num
  have near : |sums.centered| + 1 ≤ 2 ^ 53 := by
    rw [centered]
    norm_num
  obtain ⟨_, _, whole, remainder⟩ := parts.small (by omega) near
  rw [wholeValue] at whole
  rw [remainderValue] at remainder
  exact ⟨nonempty, rfl, wholeValue, remainderValue, centered, whole, remainder,
    (narrow 8 (by decide) (by decide) (by decide) (by decide)).1⟩

end ExactSums

end Comoment
