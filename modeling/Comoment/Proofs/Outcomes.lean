import Comoment.Proofs.Correlation
import Comoment.Proofs.Counts

/-!
The outcome of covariance and correlation for two sequences: when it is an error, when it is no
value, and what the value is divided by. All of it is decided by lengths and nulls, so it holds for
whatever scalars are computed with.
-/

namespace Comoment

variable {ε α : Type}

theorem Sequence.Lawful.no_nulls_iff_options {values : Sequence ε} (lawful : values.Lawful) :
    values.nullCount = 0 ↔ none ∉ values.toOptions := by
  rw [lawful.null_count_eq_zero, toOptions]
  simp

theorem pairs_kept_iff {x y : Sequence ε} (xLawful : x.Lawful) (yLawful : y.Lawful)
    (skipNulls : Bool) :
    (decide (x.nullCount = 0) && decide (y.nullCount = 0) || skipNulls) = true ↔
      skipNulls = true ∨ none ∉ x.toOptions ∧ none ∉ y.toOptions := by
  rw [← xLawful.no_nulls_iff_options, ← yLawful.no_nulls_iff_options, Bool.or_eq_true,
    Bool.and_eq_true, decide_eq_true_eq, decide_eq_true_eq]
  exact or_comm

variable [Element ε] [Scalar α]

namespace CovarianceState

def ofChunk (options : VarianceOptions) (scale : Int) (x y : Sequence ε) : CovarianceState ε α :=
  let chunkValid := decide (x.nullCount = 0) && decide (y.nullCount = 0)
  { moments := if chunkValid || options.skipNulls then Element.moments scale x y else .empty
    allValid := chunkValid
    decimalScale := scale
    options := options }

variable {x y : Sequence ε} (xLawful : x.Lawful) (yLawful : y.Lawful)

include xLawful yLawful

theorem consume_empty (aligned : x.length = y.length) (options : VarianceOptions) (scale : Int) :
    (empty options scale : CovarianceState ε α).consume x y = .ok (ofChunk options scale x y) := by
  rw [consume_eq, if_pos aligned]
  have canonical := Element.moments_canonical (α := α) xLawful yLawful scale
  simp only [empty, ofChunk, Bool.true_and, Moments.empty_merge canonical]

theorem of_chunk_is_admitted (options : VarianceOptions) (scale : Int) :
    (ofChunk options scale x y : CovarianceState ε α).isAdmitted = true ↔
      options.ddof < x.pairCount y ∧ options.minCount ≤ x.pairCount y ∧
        (options.skipNulls = true ∨ none ∉ x.toOptions ∧ none ∉ y.toOptions) := by
  rw [← pairs_kept_iff xLawful yLawful]
  unfold isAdmitted ofChunk VarianceOptions.admits
  simp only [Bool.and_eq_true, decide_eq_true_eq, and_assoc]
  by_cases kept : (decide (x.nullCount = 0) && decide (y.nullCount = 0) ||
      options.skipNulls) = true
  · rw [if_pos kept, Element.moments_count xLawful yLawful]
  -- here the state counts no pairs, whatever there are, and the null refuses both sides
  · simp only [kept, Bool.false_eq_true, and_false]

theorem of_chunk_moments {options : VarianceOptions} {scale : Int}
    (admitted : (ofChunk options scale x y : CovarianceState ε α).isAdmitted = true) :
    (ofChunk options scale x y : CovarianceState ε α).moments = Element.moments scale x y := by
  have kept := ((of_chunk_is_admitted xLawful yLawful options scale).mp admitted).2.2
  exact if_pos ((pairs_kept_iff xLawful yLawful options.skipNulls).mpr kept)

theorem of_chunk_divisor {options : VarianceOptions} {scale : Int}
    (admitted : (ofChunk options scale x y : CovarianceState ε α).isAdmitted = true) :
    (ofChunk options scale x y : CovarianceState ε α).divisor =
      Scalar.ofInt (x.pairCount y - options.ddof) := by
  unfold divisor
  rw [of_chunk_moments xLawful yLawful admitted, Element.moments_count xLawful yLawful]
  rfl

theorem of_chunk_value {options : VarianceOptions} {scale : Int}
    (admitted : (ofChunk options scale x y : CovarianceState ε α).isAdmitted = true) :
    (ofChunk options scale x y : CovarianceState ε α).value? =
      some ((Element.moments scale x y : Moments α).comoment /
        Scalar.ofInt (x.pairCount y - options.ddof)) := by
  unfold value?
  rw [if_pos admitted, of_chunk_moments xLawful yLawful admitted,
    of_chunk_divisor xLawful yLawful admitted]

end CovarianceState

namespace CorrelationState

omit [Element ε] in
theorem empty_idle (options : VarianceOptions) (scale : Int) :
    ((empty options scale : CorrelationState ε α).consumed ||
      (empty options scale : CorrelationState ε α).covariance.moments.count != 0) = false := rfl

def ofChunk (options : VarianceOptions) (scale : Int) (x y : Sequence ε) : CorrelationState ε α :=
  let covariance := CovarianceState.ofChunk options scale x y
  let squares (center : α) (component : ε → ε → ε) : α :=
    if 0 < covariance.moments.count then sumSquaredDeviations scale center component x y else 0
  { covariance := covariance
    squaresX := squares covariance.moments.meanX fun a _ => a
    squaresY := squares covariance.moments.meanY fun _ b => b
    consumed := true }

theorem consume_empty {x y : Sequence ε} (xLawful : x.Lawful) (yLawful : y.Lawful)
    (aligned : x.length = y.length) (options : VarianceOptions) (scale : Int) :
    (empty options scale : CorrelationState ε α).consume x y = .ok (ofChunk options scale x y) := by
  have covariance : (empty options scale : CorrelationState ε α).covariance.consume x y =
      .ok (CovarianceState.ofChunk options scale x y) :=
    CovarianceState.consume_empty xLawful yLawful aligned options scale
  rw [consume_eq, empty_idle, covariance]
  change Except.ok (if 0 < (CovarianceState.ofChunk options scale x y :
    CovarianceState ε α).moments.count then _ else _) = _
  unfold ofChunk
  split
  · rename_i some
    simp only [if_pos some]
    rfl
  · rename_i none
    simp only [if_neg none]
    rfl

/-- The squared deviations of the values in pairs, which are summed when there are some. -/
def chunkSquares (scale : Int) (x y : Sequence ε) (center : α) (component : ε → ε → ε) : α :=
  if 0 < x.pairCount y then sumSquaredDeviations scale center component x y else 0

theorem of_chunk_value [SquareRoot α] {x y : Sequence ε} (xLawful : x.Lawful) (yLawful : y.Lawful)
    {options : VarianceOptions} {scale : Int}
    (admitted :
      (CovarianceState.ofChunk options scale x y : CovarianceState ε α).isAdmitted = true) :
    (ofChunk options scale x y : CorrelationState ε α).value? =
      (let moments : Moments α := Element.moments scale x y
       let divisor : α := Scalar.ofInt (x.pairCount y - options.ddof)
       some (moments.comoment / divisor /
        (SquareRoot.sqrt (chunkSquares scale x y moments.meanX (fun a _ => a) / divisor) *
          SquareRoot.sqrt (chunkSquares scale x y moments.meanY (fun _ b => b) / divisor)))) := by
  have moments := CovarianceState.of_chunk_moments xLawful yLawful admitted
  have count := Element.moments_count (α := α) xLawful yLawful scale
  have divisor := CovarianceState.of_chunk_divisor xLawful yLawful admitted
  simp only [value?, ofChunk, admitted, if_true, moments, count, divisor, chunkSquares,
    Int.natCast_pos]

theorem consume_empty_misaligned {x y : Sequence ε} (misaligned : x.length ≠ y.length)
    (options : VarianceOptions) (scale : Int) :
    (empty options scale : CorrelationState ε α).consume x y =
      .error (.lengthMismatch x.length y.length) := by
  rw [consume_eq, empty_idle, CovarianceState.consume_misaligned _ misaligned]
  rfl

end CorrelationState

section Results

variable {x y : Sequence ε} (xLawful : x.Lawful) (yLawful : y.Lawful) (options : VarianceOptions)

theorem covariance_misaligned (misaligned : x.length ≠ y.length) :
    (covariance options x y : Except Error (Option α)) =
      .error (.lengthMismatch x.length y.length) := by
  rw [covariance, covarianceScaled, CovarianceState.consume_misaligned _ misaligned]
  rfl

theorem correlation_misaligned [SquareRoot α] (misaligned : x.length ≠ y.length) :
    (correlation options x y : Except Error (Option α)) =
      .error (.lengthMismatch x.length y.length) := by
  rw [correlation, correlationScaled, CorrelationState.consume_empty_misaligned misaligned]
  rfl

variable (aligned : x.length = y.length)

include xLawful yLawful aligned

theorem covariance_aligned :
    (covariance options x y : Except Error (Option α)) =
      .ok (CovarianceState.ofChunk options 0 x y).value? := by
  rw [covariance, covarianceScaled, CovarianceState.consume_empty xLawful yLawful aligned]
  rfl

theorem correlation_aligned [SquareRoot α] :
    (correlation options x y : Except Error (Option α)) =
      .ok (CorrelationState.ofChunk options 0 x y).value? := by
  rw [correlation, correlationScaled, CorrelationState.consume_empty xLawful yLawful aligned]
  rfl

end Results

/-- Covariance and correlation fail exactly for two lengths. Otherwise there is a value when the
pairs are more than the correction, as many as asked for, and no null forbids it; it is divided by
the positive number of pairs less the correction. Without rounding the covariance is the definition
of it for the pairs, which are as many as the count says. -/
theorem one_shot_outcomes [SquareRoot α] {x y : Sequence ε} (xLawful : x.Lawful)
    (yLawful : y.Lawful) (options : VarianceOptions) :
    let count : Int := x.pairCount y
    let admitted : Prop := options.ddof < count ∧ options.minCount ≤ count ∧
      (options.skipNulls = true ∨ none ∉ x.toOptions ∧ none ∉ y.toOptions)
    let divisor : α := Scalar.ofInt (count - options.ddof)
    let moments : Moments α := Element.moments 0 x y
    let squares := CorrelationState.chunkSquares (α := α) 0 x y
    let mismatch : Except Error (Option α) := .error (.lengthMismatch x.length y.length)
    let pairs := numbers (Element.exact 0) (x.pairs y)
    (covariance options x y = mismatch ↔ x.length ≠ y.length) ∧
      (correlation options x y = mismatch ↔ x.length ≠ y.length) ∧
      (x.length = y.length → ¬admitted →
        covariance options x y = .ok (none : Option α) ∧
          correlation options x y = .ok (none : Option α)) ∧
      (x.length = y.length → admitted →
        0 < count - options.ddof ∧
          covariance options x y = .ok (some (moments.comoment / divisor)) ∧
          correlation options x y =
            .ok (some (moments.comoment / divisor /
              (SquareRoot.sqrt (squares moments.meanX (fun a _ => a) / divisor) *
                SquareRoot.sqrt (squares moments.meanY (fun _ b => b) / divisor)))) ∧
          pairs.card = count ∧
          covariance options x y =
            .ok (some (deviationProducts pairs (mean (pairs.map Prod.fst))
              (mean (pairs.map Prod.snd)) / ((count - options.ddof : Int) : ℚ)))) := by
  intro count admitted divisor moments squares mismatch pairs
  have isAdmitted :
      (CovarianceState.ofChunk options 0 x y : CovarianceState ε α).isAdmitted = true ↔ admitted :=
    CovarianceState.of_chunk_is_admitted xLawful yLawful options 0
  have exactly : (CovarianceState.ofChunk options 0 x y : CovarianceState ε ℚ).isAdmitted = true ↔
      admitted := CovarianceState.of_chunk_is_admitted xLawful yLawful options 0
  refine ⟨⟨?_, covariance_misaligned options⟩, ⟨?_, correlation_misaligned options⟩, ?_, ?_⟩
  · intro failed aligned
    rw [covariance_aligned xLawful yLawful options aligned] at failed
    simp only [mismatch, reduceCtorEq] at failed
  · intro failed aligned
    rw [correlation_aligned xLawful yLawful options aligned] at failed
    simp only [mismatch, reduceCtorEq] at failed
  · intro aligned refused
    have unadmitted := mt isAdmitted.mp refused
    rw [covariance_aligned xLawful yLawful options aligned,
      correlation_aligned xLawful yLawful options aligned]
    exact ⟨congrArg Except.ok (if_neg unadmitted), congrArg Except.ok (if_neg unadmitted)⟩
  · intro aligned accepted
    refine ⟨Int.sub_pos.mpr accepted.1, ?_, ?_, ?_, ?_⟩
    · rw [covariance_aligned xLawful yLawful options aligned,
        CovarianceState.of_chunk_value xLawful yLawful (isAdmitted.mpr accepted)]
    · rw [correlation_aligned xLawful yLawful options aligned,
        CorrelationState.of_chunk_value xLawful yLawful (isAdmitted.mpr accepted)]
    · simp [pairs, numbers, count, Sequence.pairs_length xLawful yLawful]
    · rw [covariance_aligned xLawful yLawful options aligned,
        CovarianceState.of_chunk_value xLawful yLawful (exactly.mpr accepted),
        Element.moments_eq xLawful yLawful]
      rfl

/-- A null leaves no value in strict mode although no pair at all would be enough, and is passed
over otherwise. -/
theorem one_shot_outcomes_null :
    let x := Sequence.ofOptions #[some (3 : Int8), none, some 5, some (-2)]
    let y := Sequence.ofOptions #[some (1 : Int8), some 4, some 7, some 1]
    let strict : VarianceOptions := { ddof := -1, skipNulls := false, minCount := -3 }
    x.Lawful ∧ y.Lawful ∧ x.length = y.length ∧
      covariance strict x y = .ok (none : Option Float) ∧
      covariance {} x y = .ok (some (6 : ℚ)) := by
  intro x y strict
  have xLawful : x.Lawful := Sequence.of_options_lawful _
  have yLawful : y.Lawful := Sequence.of_options_lawful _
  have aligned : x.length = y.length := by decide
  have pairs : numbers (Element.exact 0) (x.pairs y) = {(3, 1), (5, 7), (-2, 1)} := by
    have stored : x.pairs y = [(3, 1), (5, 7), (-2, 1)] := by decide
    rw [stored]
    rfl
  have refused := (one_shot_outcomes (α := Float) xLawful yLawful strict).2.2.1 aligned (by decide)
  have accepted := (one_shot_outcomes (α := Float) xLawful yLawful {}).2.2.2 aligned (by decide)
  refine ⟨xLawful, yLawful, aligned, refused.1, accepted.2.2.2.2.trans ?_⟩
  have count : x.pairCount y = 3 := by decide
  rw [pairs, count]
  simp [mean, deviationProducts]
  norm_num

end Comoment
