import Comoment.Proofs.OrderIndependence
import Comoment.Proofs.PairedRuns

/-!
Both operands in the other order. The walk over shared slots finds the same runs, so every sum over
them adds the same terms in the same blocks, and the states are mirror images. Of the scalars only
the commutative law of multiplication is needed, which floats have: only centered products and the
product of both deviations take one factor from each operand.
-/

namespace Comoment

variable {ε α : Type}

section Floats

open Float.Model

theorem sign_mul_comm (sign other : UnpackedFloat.Sign) : sign * other = other * sign := by
  cases sign <;> cases other <;> rfl

/-- The product of two floats before it is packed: both signs, mantissas and exponents are treated
alike. -/
theorem unpacked_mul_comm (format : Format) (a b : UnpackedFloat) :
    a.mul format b = b.mul format a := by
  cases a with
  | notANumber => cases b <;> rfl
  | infinity sign =>
    cases b with
    | notANumber | zero => rfl
    | infinity other | finite other => exact congrArg UnpackedFloat.infinity (sign_mul_comm _ _)
  | zero sign =>
    cases b with
    | notANumber | infinity => rfl
    | zero other | finite other => exact congrArg UnpackedFloat.zero (sign_mul_comm _ _)
  | finite sign mantissa exponent =>
    cases b with
    | notANumber => rfl
    | infinity other => exact congrArg UnpackedFloat.infinity (sign_mul_comm _ _)
    | zero other => exact congrArg UnpackedFloat.zero (sign_mul_comm _ _)
    | finite other otherMantissa otherExponent =>
      change UnpackedFloat.roundWithAccuracy format (sign * other) (mantissa * otherMantissa)
        (exponent + otherExponent) .exact = _
      rw [sign_mul_comm, Nat.mul_comm, Int.add_comm]
      rfl

theorem float_mul_comm (a b : Float) : a * b = b * a := by
  change Float.ofModel (pack _) = Float.ofModel (pack _)
  rw [unpacked_mul_comm]

end Floats

namespace Sequence

theorem pair_at_swap (x y : Sequence ε) (index : Nat) :
    y.pairAt? x index = (x.pairAt? y index).map Prod.swap := by
  unfold pairAt?
  cases x.get? index <;> cases y.get? index <;> rfl

theorem pairs_swap (x y : Sequence ε) : y.pairs x = (x.pairs y).map Prod.swap := by
  have swapped : y.pairAt? x = fun index => (x.pairAt? y index).map Prod.swap :=
    funext (pair_at_swap x y)
  rw [pairs, pairs, List.map_filterMap, Nat.min_comm, swapped]

end Sequence

def Moments.mirror (moments : Moments α) : Moments α :=
  { moments with meanX := moments.meanY, meanY := moments.meanX }

def CovarianceState.mirror (state : CovarianceState ε α) : CovarianceState ε α :=
  { state with moments := state.moments.mirror }

def CorrelationState.mirror (state : CorrelationState ε α) : CorrelationState ε α :=
  { state with
    covariance := state.covariance.mirror
    squaresX := state.squaresY
    squaresY := state.squaresX }

namespace ExactSums

def mirror (sums : ExactSums) : ExactSums :=
  { sums with sumX := sums.sumY, sumY := sums.sumX }

theorem of_pairs_swap (pairs : List (Int × Int)) :
    ofPairs (pairs.map Prod.swap) = (ofPairs pairs).mirror := by
  have product : (fun pair : Int × Int => pair.1 * pair.2) ∘ Prod.swap =
      fun pair => pair.1 * pair.2 := by
    funext pair
    exact Int.mul_comm _ _
  unfold ofPairs mirror
  rw [List.length_map, List.map_map, List.map_map, List.map_map, product]
  rfl

variable [Scalar α]

theorem mirror_comoment (sums : ExactSums) : (sums.mirror.comoment : α) = sums.comoment := by
  have product : sums.sumY * sums.sumX = sums.sumX * sums.sumY := Int.mul_comm _ _
  simp only [comoment, quotient, remainder, mirror, product]

theorem mirror_moments (sums : ExactSums) :
    (sums.mirror.moments : Moments α) = sums.moments.mirror := by
  unfold moments
  rw [mirror_comoment, apply_ite Moments.mirror]
  rfl

end ExactSums

section Operands

variable {x y : Sequence ε} (xLawful : x.Lawful) (yLawful : y.Lawful)

include xLawful yLawful

theorem sum_paired_swap [Inhabited ε] [Zero α] [Add α] (term : ε → ε → α) :
    sumPaired y x term = sumPaired x y fun a b => term b a := by
  unfold sumPaired
  rw [paired_runs_comm xLawful yLawful]

namespace Moments

variable [Inhabited ε] [Scalar α]

theorem two_pass_mirror (mulComm : ∀ a b : α, a * b = b * a) (toScalar : ε → α) :
    twoPass toScalar y x = (twoPass toScalar x y).mirror := by
  unfold twoPass
  simp only [paired_runs_comm xLawful yLawful, sum_paired_swap xLawful yLawful]
  split
  · rfl
  · simp only [mirror, mulComm]

theorem exact_mirror (toInt : ε → Int) {bound : Nat} (short : min x.length y.length ≤ bound) :
    (exact toInt bound y x : Moments α) = (exact toInt bound x y).mirror := by
  rw [exact_of_short xLawful yLawful toInt short,
    exact_of_short yLawful xLawful toInt (Nat.min_comm x.length y.length ▸ short),
    ← ExactSums.mirror_moments, ← ExactSums.of_pairs_swap, Sequence.pairs_swap, List.map_map,
    List.map_map]
  rfl

end Moments

end Operands

variable [Scalar α]

theorem CorrelationState.mirror_value [SquareRoot α] (mulComm : ∀ a b : α, a * b = b * a)
    (state : CorrelationState ε α) : state.mirror.value? = state.value? := by
  change (if state.covariance.isAdmitted then
    some (state.covariance.moments.comoment / state.covariance.divisor / (_ * _)) else none) = _
  rw [mulComm (SquareRoot.sqrt _)]
  rfl

variable [Element ε]

section Operands

variable {x y : Sequence ε} (xLawful : x.Lawful) (yLawful : y.Lawful)

include xLawful yLawful

/-- An element type that is summed exactly has a bound, up to which chunks are not divided. -/
theorem Element.moments_mirror (mulComm : ∀ a b : α, a * b = b * a)
    (short : ∀ bitWidth, Strategy.select (dataType (ε := ε)) = .ok (.integerExact bitWidth) →
      min x.length y.length ≤ chunkBound bitWidth) (scale : Int) :
    (moments scale y x : Moments α) = (moments scale x y).mirror := by
  have table := select_dataType (ε := ε)
  unfold moments
  cases read : reading (ε := ε) with
  | narrow bitWidth toInt narrow sizes =>
    rw [read] at table
    exact Moments.exact_mirror xLawful yLawful toInt (short bitWidth table)
  | wide quantity => exact Moments.two_pass_mirror xLawful yLawful mulComm _

section States

variable (options : VarianceOptions) (scale : Int)
  (mirrored : (Element.moments scale y x : Moments α) = (Element.moments scale x y).mirror)

include mirrored

omit xLawful yLawful in
theorem CovarianceState.of_chunk_mirror :
    (ofChunk options scale y x : CovarianceState ε α) = (ofChunk options scale x y).mirror := by
  have nulls := Bool.and_comm (decide (y.nullCount = 0)) (decide (x.nullCount = 0))
  unfold ofChunk mirror
  rw [nulls, mirrored, apply_ite Moments.mirror]
  rfl

theorem CorrelationState.of_chunk_mirror :
    (ofChunk options scale y x : CorrelationState ε α) = (ofChunk options scale x y).mirror := by
  have covariance := CovarianceState.of_chunk_mirror options scale mirrored
  unfold ofChunk sumSquaredDeviations
  simp only [covariance, sum_paired_swap xLawful yLawful]
  rfl

variable (aligned : x.length = y.length)

include aligned

theorem CovarianceState.consume_both_orders :
    ∃ state : CovarianceState ε α, (empty options scale).consume x y = .ok state ∧
      (empty options scale).consume y x = .ok state.mirror := by
  refine ⟨ofChunk options scale x y, consume_empty xLawful yLawful aligned options scale, ?_⟩
  rw [← of_chunk_mirror options scale mirrored]
  exact consume_empty yLawful xLawful aligned.symm options scale

theorem CorrelationState.consume_both_orders :
    ∃ state : CorrelationState ε α, (empty options scale).consume x y = .ok state ∧
      (empty options scale).consume y x = .ok state.mirror := by
  refine ⟨ofChunk options scale x y, consume_empty xLawful yLawful aligned options scale, ?_⟩
  rw [← of_chunk_mirror xLawful yLawful options scale mirrored]
  exact consume_empty yLawful xLawful aligned.symm options scale

end States

end Operands

/-- The order of the operands does not show in the results, as long as an element type that is
summed exactly stays within a single chunk: covariance and correlation are the same, and the states
that have absorbed the operands in either order are mirror images. Two lengths fail in both orders,
each with its own order of the lengths. -/
theorem operands_are_symmetric [SquareRoot α] (mulComm : ∀ a b : α, a * b = b * a)
    {x y : Sequence ε} (xLawful : x.Lawful) (yLawful : y.Lawful) (options : VarianceOptions) :
    let forward : Error := .lengthMismatch x.length y.length
    let backward : Error := .lengthMismatch y.length x.length
    (x.length = y.length →
      (∀ bitWidth, Strategy.select (Element.dataType (ε := ε)) = .ok (.integerExact bitWidth) →
        x.length ≤ chunkBound bitWidth) →
      (covariance options x y : Except Error (Option α)) = covariance options y x ∧
        (correlation options x y : Except Error (Option α)) = correlation options y x ∧
        ∀ scale,
          (∃ state : CovarianceState ε α,
            (CovarianceState.empty options scale).consume x y = .ok state ∧
              (CovarianceState.empty options scale).consume y x = .ok state.mirror) ∧
            ∃ state : CorrelationState ε α,
              (CorrelationState.empty options scale).consume x y = .ok state ∧
                (CorrelationState.empty options scale).consume y x = .ok state.mirror) ∧
      (x.length ≠ y.length →
        (covariance options x y : Except Error (Option α)) = .error forward ∧
          (covariance options y x : Except Error (Option α)) = .error backward ∧
          (correlation options x y : Except Error (Option α)) = .error forward ∧
          (correlation options y x : Except Error (Option α)) = .error backward) := by
  intro forward backward
  constructor
  · intro aligned short
    have mirrored := Element.moments_mirror xLawful yLawful mulComm
      (by rwa [← aligned, Nat.min_self])
    refine ⟨?_, ?_, ?_⟩
    · rw [covariance_aligned xLawful yLawful options aligned,
        covariance_aligned yLawful xLawful options aligned.symm,
        CovarianceState.of_chunk_mirror options 0 (mirrored 0)]
      rfl
    · rw [correlation_aligned xLawful yLawful options aligned,
        correlation_aligned yLawful xLawful options aligned.symm,
        CorrelationState.of_chunk_mirror xLawful yLawful options 0 (mirrored 0),
        CorrelationState.mirror_value mulComm]
    · intro scale
      exact ⟨CovarianceState.consume_both_orders xLawful yLawful options scale (mirrored scale)
          aligned,
        CorrelationState.consume_both_orders xLawful yLawful options scale (mirrored scale)
          aligned⟩
  · intro misaligned
    exact ⟨covariance_misaligned options misaligned, covariance_misaligned options misaligned.symm,
      correlation_misaligned options misaligned, correlation_misaligned options misaligned.symm⟩

/-- Floats and narrow integers with nulls of their own, and a sequence of another length. -/
theorem operands_are_symmetric_nulls :
    let x := Sequence.ofOptions #[some (1.5 : Float), none, some 0.1, some 7, some (-2)]
    let y := Sequence.ofOptions #[some (0.3 : Float), some 4, some 3, none, some 1e300]
    let narrow := Sequence.ofOptions #[some (3 : Int8), none, some (-128)]
    let other := Sequence.ofOptions #[some (7 : Int8), some 1, some 127]
    let short := Sequence.ofOptions #[some (2 : Float)]
    (correlation { ddof := 1 } x y : Except Error (Option Float)) =
        correlation { ddof := 1 } y x ∧
      (covariance {} narrow other : Except Error (Option Float)) = covariance {} other narrow ∧
      (∃ state : CorrelationState Float Float,
        (CorrelationState.empty { ddof := 1 } 0).consume x y = .ok state ∧
          (CorrelationState.empty { ddof := 1 } 0).consume y x = .ok state.mirror) ∧
      (covariance {} short x : Except Error (Option Float)) = .error (.lengthMismatch 1 5) := by
  intro x y narrow other short
  have xLawful : x.Lawful := Sequence.of_options_lawful _
  have yLawful : y.Lawful := Sequence.of_options_lawful _
  have narrowLawful : narrow.Lawful := Sequence.of_options_lawful _
  have otherLawful : other.Lawful := Sequence.of_options_lawful _
  have shortLawful : short.Lawful := Sequence.of_options_lawful _
  have aligned : x.length = y.length := by decide
  have bounded : ∀ bitWidth, Strategy.select (Element.dataType (ε := Int8)) =
      .ok (.integerExact bitWidth) → narrow.length ≤ chunkBound bitWidth := by
    intro bitWidth selected
    cases selected
    decide
  have floats :=
    (operands_are_symmetric float_mul_comm xLawful yLawful { ddof := 1 }).1 aligned nofun
  have integers :=
    (operands_are_symmetric float_mul_comm narrowLawful otherLawful {}).1 (by decide) bounded
  have failed := (operands_are_symmetric float_mul_comm shortLawful xLawful {}).2
    (by decide : (1 : Nat) ≠ 5)
  exact ⟨floats.2.1, integers.1, (floats.2.2 0).2, failed.1⟩

end Comoment
