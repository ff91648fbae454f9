import Comoment.Proofs.Outcomes
import Comoment.Proofs.Representation

/-!
Correlation from covariance and variances. The squared deviations of a correlation are those of
the variance of one operand, restricted to the slots where the other holds a value: the walk over
such a sequence with itself is the walk over both operands, and it reads one of their components.
-/

namespace Comoment

variable {ε α : Type}

namespace Sequence

/-- The values of a sequence in the slots where another one holds a value too; the other slots are
null. -/
structure Restricts (part values other : Sequence ε) : Prop where
  length : part.length = values.length
  slots : ∀ index < values.length,
    part.get? index = if (other.get? index).isSome then values.get? index else none

/-- The sequence holds one component of every pair of two others, and nothing besides. -/
structure Projects (part x y : Sequence ε) (component : ε → ε → ε) : Prop where
  length : part.length = min x.length y.length
  slots : ∀ index, part.get? index =
    (x.pairAt? y index).map fun pair => component pair.1 pair.2

section Restricts

variable {x y part : Sequence ε} (partLawful : part.Lawful) (aligned : x.length = y.length)

include partLawful

/-- Past the end all slots are null, so the rule for slots has no bound. -/
theorem Restricts.get (restricts : part.Restricts x y) (xLawful : x.Lawful) (index : Nat) :
    part.get? index = if (y.get? index).isSome then x.get? index else none := by
  by_cases inside : index < x.length
  · exact restricts.slots index inside
  · have past := Nat.le_of_not_lt inside
    have ended : part.length ≤ index := restricts.length ▸ past
    rw [Lawful.get_of_null (partLawful.null_past_end ended),
      Lawful.get_of_null (xLawful.null_past_end past), ite_self]

include aligned

theorem Restricts.first (restricts : part.Restricts x y) (xLawful : x.Lawful) :
    part.Projects x y fun a _ => a where
  length := by rw [restricts.length, ← aligned, Nat.min_self]
  slots := by
    intro index
    rw [restricts.get partLawful xLawful, pairAt?]
    cases x.get? index <;> cases y.get? index <;> rfl

theorem Restricts.second (restricts : part.Restricts y x) (yLawful : y.Lawful) :
    part.Projects x y fun _ b => b where
  length := by rw [restricts.length, aligned, Nat.min_self]
  slots := by
    intro index
    rw [restricts.get partLawful yLawful, pairAt?]
    cases x.get? index <;> cases y.get? index <;> rfl

end Restricts

namespace Projects

variable {x y part : Sequence ε} {component : ε → ε → ε}

theorem pair_at (projects : part.Projects x y component) (index : Nat) :
    part.pairAt? part index =
      (x.pairAt? y index).map fun pair =>
        (component pair.1 pair.2, component pair.1 pair.2) := by
  rw [pairAt?, projects.slots]
  cases x.pairAt? y index <;> rfl

theorem pairs (projects : part.Projects x y component) :
    part.pairs part =
      (x.pairs y).map fun pair => (component pair.1 pair.2, component pair.1 pair.2) := by
  unfold Sequence.pairs
  rw [Nat.min_self, projects.length, List.map_filterMap]
  simp only [projects.pair_at]

theorem has_no_null (projects : part.Projects x y component) (aligned : x.length = y.length) :
    none ∉ part.toOptions ↔ none ∉ x.toOptions ∧ none ∉ y.toOptions := by
  have length : part.length = x.length := by rw [projects.length, ← aligned, Nat.min_self]
  simp only [toOptions, List.mem_map, List.mem_range, not_exists, not_and, length, projects.slots,
    Option.map_eq_none_iff, pair_at_eq_none, not_or, ← aligned]
  constructor
  · intro paired
    exact ⟨fun index inside => (paired index inside).1, fun index inside => (paired index inside).2⟩
  · rintro ⟨xValues, yValues⟩ index inside
    exact ⟨xValues index inside, yValues index inside⟩

variable [Inhabited ε] (projects : part.Projects x y component) (xLawful : x.Lawful)
  (yLawful : y.Lawful) (partLawful : part.Lawful)

include projects xLawful yLawful partLawful

theorem paired_at : part.pairedAt part = x.pairedAt y := by
  funext index
  rw [paired_at_iff partLawful partLawful, paired_at_iff xLawful yLawful, projects.pair_at,
    Option.isSome_map]

theorem pair_count : part.pairCount part = x.pairCount y := by
  unfold pairCount
  rw [projects.paired_at xLawful yLawful partLawful, projects.length, Nat.min_self]

theorem paired_runs : pairedRuns part part = pairedRuns x y := by
  unfold pairedRuns
  rw [paired_runs_in_eq_scan partLawful partLawful, paired_runs_in_eq_scan xLawful yLawful,
    projects.paired_at xLawful yLawful partLawful, projects.length, Nat.min_self]

theorem value {index : Nat} (paired : x.pairedAt y index = true) :
    part.value index = component (x.value index) (y.value index) := by
  have pair := pair_at_eq partLawful partLawful index
  rw [projects.pair_at, pair_at_eq xLawful yLawful, projects.paired_at xLawful yLawful partLawful,
    if_pos paired, if_pos paired, Option.map_some, Option.some.injEq, Prod.mk.injEq] at pair
  exact pair.1.symm

/-- A sum over the sequence with itself is the sum over both others of the component. -/
theorem sum_paired [Zero α] [Add α] (term : ε → ε → α) :
    sumPaired part part term =
      sumPaired x y fun a b => term (component a b) (component a b) := by
  unfold sumPaired
  rw [projects.paired_runs xLawful yLawful partLawful]
  apply sum_runs_congr
  intro index found
  rw [pairedRuns, paired_runs_in_slots xLawful yLawful, List.mem_filter] at found
  rw [projects.value xLawful yLawful partLawful found.2]

end Projects

end Sequence

open Sequence

namespace Moments

variable [Inhabited ε] [Scalar α] {x y part : Sequence ε}

theorem two_pass_of_pairs (xLawful : x.Lawful) (yLawful : y.Lawful) (toScalar : ε → α)
    (some : 0 < x.pairCount y) :
    let size : α := Scalar.ofInt (x.pairCount y)
    let meanX := sumPaired x y (fun a _ => toScalar a) / size
    let meanY := sumPaired x y (fun _ b => toScalar b) / size
    twoPass toScalar x y =
      ⟨x.pairCount y, meanX, meanY,
        sumPaired x y fun a b => (toScalar a - meanX) * (toScalar b - meanY)⟩ := by
  have count : Run.totalLength (pairedRuns x y) = x.pairCount y := by
    rw [paired_runs_total xLawful yLawful, pairs_length xLawful yLawful]
  unfold twoPass
  simp only [count]
  rw [if_neg (Nat.ne_of_gt some)]

end Moments

namespace Sequence.Projects

variable [Inhabited ε] [Scalar α] {x y part : Sequence ε} {component : ε → ε → ε}
  (projects : part.Projects x y component) (xLawful : x.Lawful) (yLawful : y.Lawful)
  (partLawful : part.Lawful)

include projects xLawful yLawful partLawful

theorem two_pass_comoment (toScalar : ε → α) {center : α}
    (centered : 0 < x.pairCount y →
      center = sumPaired x y (fun a b => toScalar (component a b)) / Scalar.ofInt (x.pairCount y)) :
    (Moments.twoPass toScalar part part).comoment =
      if 0 < x.pairCount y then
        sumPaired x y fun a b =>
          (toScalar (component a b) - center) * (toScalar (component a b) - center)
      else 0 := by
  have count := projects.pair_count xLawful yLawful partLawful
  by_cases some : 0 < x.pairCount y
  · rw [if_pos some, Moments.two_pass_of_pairs partLawful partLawful toScalar (count ▸ some),
      centered some]
    simp only [count, projects.sum_paired xLawful yLawful partLawful]
  · have none : part.pairs part = [] := by
      rw [← List.length_eq_zero_iff, pairs_length partLawful partLawful, count]
      exact Nat.eq_zero_of_not_pos some
    rw [if_neg some, Moments.two_pass_of_no_pairs partLawful partLawful toScalar none]
    rfl

end Sequence.Projects

namespace Element

variable [Element ε] {x y part : Sequence ε} {component : ε → ε → ε}

theorem moments_two_pass [Scalar α] (selected : Strategy.select (dataType (ε := ε)) = .ok .twoPass)
    (scale : Int) (x y : Sequence ε) :
    (moments scale x y : Moments α) = Moments.twoPass (toScalar scale) x y := by
  have table := select_dataType (ε := ε)
  rw [selected] at table
  unfold moments toScalar
  cases read : reading (ε := ε) with
  | narrow bitWidth toInt narrow sizes =>
    rw [read] at table
    simp [Reading.strategy] at table
  | wide quantity => rfl

variable (projects : part.Projects x y component) (xLawful : x.Lawful) (yLawful : y.Lawful)
  (partLawful : part.Lawful) (scale : Int)

include projects xLawful yLawful partLawful

theorem two_pass_squares [Scalar α]
    (selected : Strategy.select (dataType (ε := ε)) = .ok .twoPass) {center : α}
    (centered : 0 < x.pairCount y → center =
      sumPaired x y (fun a b => toScalar scale (component a b)) / Scalar.ofInt (x.pairCount y)) :
    (moments scale part part : Moments α).comoment =
      CorrelationState.chunkSquares scale x y center component := by
  rw [moments_two_pass selected,
    projects.two_pass_comoment xLawful yLawful partLawful (toScalar scale) centered]
  rfl

theorem exact_squares :
    (moments scale part part : Moments ℚ).comoment =
      CorrelationState.chunkSquares scale x y
        (mean ((x.pairs y).map fun pair => exact scale (component pair.1 pair.2))) component := by
  let values : Multiset ℚ := (x.pairs y).map fun pair => exact scale (component pair.1 pair.2)
  have pairs : numbers (exact scale) (part.pairs part) =
      values.map fun value => (value, value) := by
    simp [values, numbers, projects.pairs, Function.comp_def]
  have squares : (moments scale part part : Moments ℚ).comoment =
      deviationSquares values (mean values) := by
    rw [moments_eq partLawful partLawful, pairs, ← Spread.of_values_moments]
    rfl
  have summed := CorrelationState.sum_squared_deviations_eq xLawful yLawful scale (mean values)
    component
  rw [squares, CorrelationState.chunkSquares]
  split
  · exact summed.symm
  · rename_i none
    rw [← pairs_length xLawful yLawful, List.length_pos_iff, not_not] at none
    simp [values, none, deviationSquares]

end Element

/-- The correlation of two operands has a value exactly if their covariance and two variances have
one, and it is then the covariance divided by the product of both standard deviations. -/
def IsRatioOfDeviations [SquareRoot α] [Scalar α] (correlation covariance varianceX varianceY :
    Except Error (Option α)) : Prop :=
  ∃ ratio product squaresX squaresY : Option α,
    correlation = .ok ratio ∧ covariance = .ok product ∧ varianceX = .ok squaresX ∧
      varianceY = .ok squaresY ∧
      (ratio.isSome ↔ product.isSome ∧ squaresX.isSome ∧ squaresY.isSome) ∧
      ∀ c v w, product = some c → squaresX = some v → squaresY = some w →
        ratio = some (c / (SquareRoot.sqrt v * SquareRoot.sqrt w))

section Ratio

variable [Element ε] [Scalar α] {x y left right : Sequence ε} (xLawful : x.Lawful)
  (yLawful : y.Lawful) (aligned : x.length = y.length)

include xLawful yLawful aligned

theorem self_admitted {part : Sequence ε} {component : ε → ε → ε}
    (projects : part.Projects x y component) (partLawful : part.Lawful)
    (options : VarianceOptions) (scale : Int) :
    (CovarianceState.ofChunk options scale part part : CovarianceState ε α).isAdmitted =
      (CovarianceState.ofChunk options scale x y : CovarianceState ε α).isAdmitted := by
  rw [Bool.eq_iff_iff, CovarianceState.of_chunk_is_admitted partLawful partLawful,
    CovarianceState.of_chunk_is_admitted xLawful yLawful,
    projects.pair_count xLawful yLawful partLawful, and_self, projects.has_no_null aligned]

/-- The variance of a component is the quotient of the squared deviations that a correlation has
of it. -/
theorem variance_of_squares {part : Sequence ε} {component : ε → ε → ε}
    (projects : part.Projects x y component) (partLawful : part.Lawful)
    (options : VarianceOptions) {center : α}
    (squares : (Element.moments 0 part part : Moments α).comoment =
      CorrelationState.chunkSquares 0 x y center component) :
    (variance options part : Except Error (Option α)) =
      .ok (if (CovarianceState.ofChunk options 0 x y : CovarianceState ε α).isAdmitted then
        some (CorrelationState.chunkSquares 0 x y center component /
          Scalar.ofInt (x.pairCount y - options.ddof))
      else none) := by
  have admitted := self_admitted (α := α) xLawful yLawful aligned projects partLawful options 0
  change (covariance options part part : Except Error (Option α)) = _
  rw [covariance_aligned partLawful partLawful options rfl]
  refine congrArg Except.ok ?_
  split
  · rename_i accepted
    rw [CovarianceState.of_chunk_value partLawful partLawful (admitted.trans accepted), squares,
      projects.pair_count xLawful yLawful partLawful]
  · rename_i refused
    rw [CovarianceState.value?, admitted, if_neg refused]

theorem ratio_of_squares [SquareRoot α] (options : VarianceOptions)
    (leftProjects : left.Projects x y fun a _ => a) (leftLawful : left.Lawful)
    (rightProjects : right.Projects x y fun _ b => b) (rightLawful : right.Lawful)
    (squaresX : (Element.moments 0 left left : Moments α).comoment =
      CorrelationState.chunkSquares 0 x y (Element.moments 0 x y : Moments α).meanX fun a _ => a)
    (squaresY : (Element.moments 0 right right : Moments α).comoment =
      CorrelationState.chunkSquares 0 x y (Element.moments 0 x y : Moments α).meanY fun _ b => b) :
    IsRatioOfDeviations (α := α) (correlation options x y) (covariance options x y)
      (variance options left) (variance options right) := by
  refine ⟨_, _, _, _, correlation_aligned xLawful yLawful options aligned,
    covariance_aligned xLawful yLawful options aligned,
    variance_of_squares xLawful yLawful aligned leftProjects leftLawful options squaresX,
    variance_of_squares xLawful yLawful aligned rightProjects rightLawful options squaresY, ?_⟩
  by_cases accepted :
      (CovarianceState.ofChunk options 0 x y : CovarianceState ε α).isAdmitted = true
  · rw [CorrelationState.of_chunk_value xLawful yLawful accepted,
      CovarianceState.of_chunk_value xLawful yLawful accepted, if_pos accepted, if_pos accepted]
    refine ⟨by simp, ?_⟩
    intro c v w product left right
    rw [← Option.some.inj product, ← Option.some.inj left, ← Option.some.inj right]
  · have none : (CorrelationState.ofChunk options 0 x y : CorrelationState ε α).value? = none :=
      if_neg accepted
    rw [none, CovarianceState.value?, if_neg accepted, if_neg accepted, if_neg accepted]
    simp

end Ratio

/-- Correlation agrees with covariance and variance, where the variance of an operand is taken over
the slots in which the other one has a value. Numbers that are traversed twice agree as expressions
in any scalars; integers that are summed exactly agree without rounding. -/
theorem correlation_is_ratio_of_deviations [Element ε] {x y left right : Sequence ε}
    (xLawful : x.Lawful) (yLawful : y.Lawful) (leftLawful : left.Lawful)
    (rightLawful : right.Lawful) (aligned : x.length = y.length)
    (leftPart : left.Restricts x y) (rightPart : right.Restricts y x)
    (options : VarianceOptions) :
    (Strategy.select (Element.dataType (ε := ε)) = .ok .twoPass →
        ∀ (α : Type) [Scalar α] [SquareRoot α],
          IsRatioOfDeviations (α := α) (correlation options x y) (covariance options x y)
            (variance options left) (variance options right)) ∧
      ∀ [SquareRoot ℚ],
        IsRatioOfDeviations (α := ℚ) (correlation options x y) (covariance options x y)
          (variance options left) (variance options right) := by
  have leftProjects := leftPart.first leftLawful aligned xLawful
  have rightProjects := rightPart.second rightLawful aligned yLawful
  constructor
  · intro selected α _ _
    have read := Element.moments_two_pass (α := α) selected 0 x y
    have traversed := Moments.two_pass_of_pairs (α := α) xLawful yLawful (Element.toScalar 0)
    apply ratio_of_squares xLawful yLawful aligned options leftProjects leftLawful rightProjects
      rightLawful
    · apply Element.two_pass_squares leftProjects xLawful yLawful leftLawful 0 selected
      intro some
      rw [read, traversed some]
    · apply Element.two_pass_squares rightProjects xLawful yLawful rightLawful 0 selected
      intro some
      rw [read, traversed some]
  · intro _
    have means : (Element.moments 0 x y : Moments ℚ).meanX =
          mean ((x.pairs y).map fun pair => Element.exact 0 pair.1) ∧
        (Element.moments 0 x y : Moments ℚ).meanY =
          mean ((x.pairs y).map fun pair => Element.exact 0 pair.2) := by
      rw [Element.moments_eq xLawful yLawful]
      simp [Moments.ofPairs, numbers, Function.comp_def]
    apply ratio_of_squares xLawful yLawful aligned options leftProjects leftLawful rightProjects
      rightLawful
    · rw [means.1]
      exact Element.exact_squares leftProjects xLawful yLawful leftLawful 0
    · rw [means.2]
      exact Element.exact_squares rightProjects xLawful yLawful rightLawful 0

/-- The null of each operand is a null of the other one in the variances. -/
theorem correlation_is_ratio_of_deviations_nulls :
    let x := Sequence.ofOptions #[some (3 : Float), none, some 5, some 1]
    let y := Sequence.ofOptions #[some (1 : Float), some 4, none, some 2]
    let left := Sequence.ofOptions #[some (3 : Float), none, none, some 1]
    let right := Sequence.ofOptions #[some (1 : Float), none, none, some 2]
    Strategy.select (Element.dataType (ε := Float)) = .ok .twoPass ∧
      x.Lawful ∧ y.Lawful ∧ left.Lawful ∧ right.Lawful ∧ x.length = y.length ∧
      left.Restricts x y ∧ right.Restricts y x ∧
      IsRatioOfDeviations (α := Float) (correlation { ddof := 1 } x y)
        (covariance { ddof := 1 } x y) (variance { ddof := 1 } left)
        (variance { ddof := 1 } right) := by
  intro x y left right
  have xLawful : x.Lawful := Sequence.of_options_lawful _
  have yLawful : y.Lawful := Sequence.of_options_lawful _
  have leftLawful : left.Lawful := Sequence.of_options_lawful _
  have rightLawful : right.Lawful := Sequence.of_options_lawful _
  have aligned : x.length = y.length := by decide
  have leftPart : left.Restricts x y := by
    refine ⟨by decide, fun index inside => ?_⟩
    have bound : index < 4 := inside
    match index with
    | 0 | 1 | 2 | 3 => rfl
  have rightPart : right.Restricts y x := by
    refine ⟨by decide, fun index inside => ?_⟩
    have bound : index < 4 := inside
    match index with
    | 0 | 1 | 2 | 3 => rfl
  exact ⟨rfl, xLawful, yLawful, leftLawful, rightLawful, aligned, leftPart, rightPart,
    (correlation_is_ratio_of_deviations xLawful yLawful leftLawful rightLawful aligned leftPart
      rightPart { ddof := 1 }).1 rfl Float⟩

end Comoment
