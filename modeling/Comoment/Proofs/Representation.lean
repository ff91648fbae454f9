import Comoment.Proofs.Backing
import Comoment.Proofs.Chunks
import Comoment.Proofs.Refusals

/-!
Comparing the accumulations of two pairs of sequences that hold the same pairs of values. What a
null slot stores, which operand holds the null, and what the sequences stand on never enter a
result: every walk over paired slots is the same walk, and it reads the same values. The scalars
are left open, so that the results agree as expressions and not merely as numbers.
-/

namespace Comoment

variable {ε δ α : Type}

namespace Cascade

variable [Zero α] [Add α]

theorem block_sum_congr {term other : Nat → α} {start length : Nat}
    (same : ∀ index ∈ List.range' start length, term index = other index) :
    blockSum term start length = blockSum other start length := by
  apply List.foldl_ext
  intro sum index found
  rw [same index found]

theorem add_run_congr {term other : Nat → α} (cascade : Cascade α) (start length : Nat)
    (same : ∀ index ∈ List.range' start length, term index = other index) :
    cascade.addRun term start length = cascade.addRun other start length := by
  fun_induction addRun term cascade start length with
  | case1 => rw [addRun, if_pos rfl]
  | case2 cascade start length nonempty block =>
    rename_i ih
    have size : length = block + (length - block) := by omega
    rw [size, ← List.range'_append_1] at same
    have head : blockSum term start block = blockSum other start block :=
      block_sum_congr fun index found => same index (List.mem_append_left _ found)
    rw [ih fun index found => same index (List.mem_append_right _ found), head]
    symm
    rw [addRun, if_neg nonempty]

end Cascade

theorem sum_runs_congr [Zero α] [Add α] {runs : List Run} {term other : Nat → α}
    (same : ∀ index ∈ runs.flatMap Run.slots, term index = other index) :
    sumRuns runs term = sumRuns runs other := by
  unfold sumRuns
  congr 1
  apply List.foldl_ext
  intro cascade run found
  exact cascade.add_run_congr run.start run.length fun index inside =>
    same index (List.mem_flatMap.mpr ⟨run, found, inside⟩)

namespace Sequence

/-- In every slot both pairs of sequences hold the same two values, or each has a null. -/
def SamePairs (x y x' y' : Sequence ε) : Prop :=
  ∀ index < x.length,
    (∃ a b, x.get? index = some a ∧ y.get? index = some b ∧
      x'.get? index = some a ∧ y'.get? index = some b) ∨
    (x.get? index = none ∨ y.get? index = none) ∧ (x'.get? index = none ∨ y'.get? index = none)

/-- Two pairs of sequences that the accumulations cannot tell apart: the walk over paired slots
finds the same runs in every window, and reads the same values there. -/
structure Interchangeable [Inhabited ε] (x y x' y' : Sequence ε) : Prop where
  stop : min x.length y.length = min x'.length y'.length
  runs : ∀ offset length, pairedRunsIn x y offset length = pairedRunsIn x' y' offset length
  read : ∀ offset length, ∀ index ∈ (pairedRunsIn x y offset length).flatMap Run.slots,
    x.value index = x'.value index ∧ y.value index = y'.value index

section Lawful

variable {x y x' y' : Sequence ε}

theorem pair_at_same (xLawful : x.Lawful) (xLawful' : x'.Lawful) (length : x.length = x'.length)
    (same : SamePairs x y x' y') (index : Nat) : pairAt? x y index = pairAt? x' y' index := by
  by_cases inside : index < x.length
  · rcases same index inside with ⟨a, b, xa, yb, xa', yb'⟩ | ⟨null, null'⟩
    · simp [pairAt?, xa, yb, xa', yb']
    · rw [(pair_at_eq_none x y index).mpr null, (pair_at_eq_none x' y' index).mpr null']
  · have null := Lawful.get_of_null (xLawful.null_past_end (Nat.le_of_not_lt inside))
    have null' := Lawful.get_of_null (xLawful'.null_past_end (by omega : x'.length ≤ index))
    rw [(pair_at_eq_none x y index).mpr (.inl null), (pair_at_eq_none x' y' index).mpr (.inl null')]

theorem no_nulls_iff_paired (xLawful : x.Lawful) (yLawful : y.Lawful)
    (aligned : x.length = y.length) :
    (decide (x.nullCount = 0) && decide (y.nullCount = 0)) = true ↔
      ∀ index < x.length, pairAt? x y index ≠ none := by
  rw [Bool.and_eq_true, decide_eq_true_eq, decide_eq_true_eq, xLawful.null_count_eq_zero,
    yLawful.null_count_eq_zero, ← aligned]
  simp only [ne_eq, pair_at_eq_none, not_or]
  constructor
  · rintro ⟨xValid, yValid⟩ index inside
    exact ⟨xValid index inside, yValid index inside⟩
  · intro valid
    exact ⟨fun index inside => (valid index inside).1, fun index inside => (valid index inside).2⟩

theorem paired_at_iff [Inhabited ε] (xLawful : x.Lawful) (yLawful : y.Lawful) (index : Nat) :
    pairedAt x y index = (pairAt? x y index).isSome := by
  rw [pair_at_eq xLawful yLawful]
  cases pairedAt x y index <;> rfl

theorem interchangeable_of_same_pairs [Inhabited ε] (xLawful : x.Lawful) (yLawful : y.Lawful)
    (xLawful' : x'.Lawful) (yLawful' : y'.Lawful)
    (stop : min x.length y.length = min x'.length y'.length)
    (same : ∀ index, pairAt? x y index = pairAt? x' y' index) : Interchangeable x y x' y' where
  stop := stop
  runs offset length := by
    have paired : pairedAt x y = pairedAt x' y' := by
      funext index
      rw [paired_at_iff xLawful yLawful, paired_at_iff xLawful' yLawful', same]
    rw [paired_runs_in_eq_scan xLawful yLawful, paired_runs_in_eq_scan xLawful' yLawful', paired,
      stop]
  read offset length index found := by
    rw [paired_runs_in_slots xLawful yLawful, List.mem_filter] at found
    have values := same index
    have paired' : pairedAt x' y' index = true := by
      rw [paired_at_iff xLawful' yLawful', ← values, ← paired_at_iff xLawful yLawful, found.2]
    rw [pair_at_eq xLawful yLawful, pair_at_eq xLawful' yLawful', if_pos found.2,
      if_pos paired'] at values
    simpa using values

end Lawful

end Sequence

open Sequence

namespace Sequence.Interchangeable

variable {x y x' y' : Sequence ε}

section Reads

variable [Inhabited ε]

theorem paired_runs (agree : Interchangeable x y x' y') : pairedRuns x y = pairedRuns x' y' := by
  rw [pairedRuns, pairedRuns, agree.runs, agree.stop]

theorem sum_paired [Zero α] [Add α] (agree : Interchangeable x y x' y') (term : ε → ε → α) :
    sumPaired x y term = sumPaired x' y' term := by
  unfold sumPaired
  rw [← agree.paired_runs]
  apply sum_runs_congr
  intro index found
  obtain ⟨first, second⟩ := agree.read 0 _ index found
  rw [first, second]

variable [Scalar α]

theorem two_pass (agree : Interchangeable x y x' y') (toScalar : ε → α) :
    Moments.twoPass toScalar x y = Moments.twoPass toScalar x' y' := by
  unfold Moments.twoPass
  simp only [agree.paired_runs, agree.sum_paired]

theorem exact_sums (agree : Interchangeable x y x' y') (toInt : ε → Int) (window : Run) :
    ExactSums.ofRuns toInt x y (pairedRunsIn x y window.start window.length) =
      ExactSums.ofRuns toInt x' y' (pairedRunsIn x' y' window.start window.length) := by
  unfold ExactSums.ofRuns
  rw [← agree.runs]
  apply List.foldl_ext
  intro sums index found
  obtain ⟨first, second⟩ := agree.read window.start window.length index found
  rw [first, second]

theorem exact (agree : Interchangeable x y x' y') (toInt : ε → Int) (bound : Nat) :
    (Moments.exact toInt bound x y : Moments α) = Moments.exact toInt bound x' y' := by
  rw [Moments.exact_eq_foldl, Moments.exact_eq_foldl, agree.stop]
  apply List.foldl_ext
  intro moments window _
  simp only [Moments.mergeWindow, agree.exact_sums toInt window]

end Reads

variable [Element ε] [Scalar α]

theorem moments (agree : Interchangeable x y x' y') (scale : Int) :
    (Element.moments scale x y : Moments α) = Element.moments scale x' y' := by
  unfold Element.moments
  cases Element.reading (ε := ε) with
  | narrow bitWidth toInt narrow sizes => exact agree.exact toInt (chunkBound bitWidth)
  | wide quantity => exact agree.two_pass _

variable (agree : Interchangeable x y x' y') (aligned : x.length = y.length)
  (aligned' : x'.length = y'.length)
  (noNulls : (decide (x.nullCount = 0) && decide (y.nullCount = 0)) =
    (decide (x'.nullCount = 0) && decide (y'.nullCount = 0)))

include agree aligned aligned' noNulls

theorem consume_covariance (state : CovarianceState ε α) :
    state.consume x y = state.consume x' y' := by
  rw [CovarianceState.consume_eq, CovarianceState.consume_eq, if_pos aligned, if_pos aligned',
    noNulls, agree.moments]

theorem consume_correlation (state : CorrelationState ε α) :
    state.consume x y = state.consume x' y' := by
  rw [CorrelationState.consume_eq, CorrelationState.consume_eq,
    agree.consume_covariance aligned aligned' noNulls]
  simp only [CorrelationState.holding, agree.sum_paired]

end Sequence.Interchangeable

/-- Sequences of one length that hold the same pairs, whatever they stand on and whatever their
null slots store, have the same sums, moments, states and results. -/
theorem results_depend_on_pairs [Element ε] [Scalar α] [SquareRoot α]
    {x y x' y' : Sequence ε} (xLawful : x.Lawful) (yLawful : y.Lawful) (xLawful' : x'.Lawful)
    (yLawful' : y'.Lawful) (aligned : x.length = y.length) (aligned' : x'.length = y'.length)
    (length : x.length = x'.length) (same : SamePairs x y x' y') :
    (∀ term : ε → ε → α, sumPaired x y term = sumPaired x' y' term) ∧
      (∀ toScalar : ε → α, Moments.twoPass toScalar x y = Moments.twoPass toScalar x' y') ∧
      (∀ scale, (Element.moments scale x y : Moments α) = Element.moments scale x' y') ∧
      (∀ state : CovarianceState ε α, state.consume x y = state.consume x' y') ∧
      (∀ state : CorrelationState ε α, state.consume x y = state.consume x' y') ∧
      (∀ options, (covariance options x y : Except Error (Option α)) = covariance options x' y') ∧
      (∀ options,
        (correlation options x y : Except Error (Option α)) = correlation options x' y') := by
  have pairs := pair_at_same xLawful xLawful' length same
  have agree : Interchangeable x y x' y' :=
    interchangeable_of_same_pairs xLawful yLawful xLawful' yLawful'
      (by rw [← aligned, ← aligned', length]) pairs
  have noNulls : (decide (x.nullCount = 0) && decide (y.nullCount = 0)) =
      (decide (x'.nullCount = 0) && decide (y'.nullCount = 0)) := by
    rw [Bool.eq_iff_iff, no_nulls_iff_paired xLawful yLawful aligned,
      no_nulls_iff_paired xLawful' yLawful' aligned', length]
    simp only [pairs]
  have covarianceStates := agree.consume_covariance (α := α) aligned aligned' noNulls
  have correlationStates := agree.consume_correlation (α := α) aligned aligned' noNulls
  refine ⟨agree.sum_paired, agree.two_pass, agree.moments, covarianceStates, correlationStates,
    ?_, ?_⟩
  · intro options
    rw [covariance, covarianceScaled, covarianceStates]
    rfl
  · intro options
    rw [correlation, correlationScaled, correlationStates]
    rfl

/-- A column that stores not-a-number in its null slot, beside an array with an infinite value
there, against an array beside a window of options with the null on the other side. -/
theorem results_depend_on_pairs_placeholders :
    let x := (Backing.column (.ofValidity #[3, 0.0 / 0.0, (5 : Float)]
      (.ofList [true, false, true]) rfl)).toSequence
    let y := (Backing.array #[1, 1.0 / 0.0, (2 : Float)]).toSequence
    let x' := (Backing.array #[3, 4, (5 : Float)]).toSequence
    let y' := (Backing.window (.options #[some 8, some 1, none, some (2 : Float), some 7])
      1 3).toSequence
    x.Lawful ∧ y.Lawful ∧ x'.Lawful ∧ y'.Lawful ∧ x.length = y.length ∧ x'.length = y'.length ∧
      x.length = x'.length ∧ SamePairs x y x' y' ∧
      (correlation {} x y : Except Error (Option Float)) = correlation {} x' y' := by
  intro x y x' y'
  have xLawful : x.Lawful := Backing.to_sequence_lawful _
  have yLawful : y.Lawful := Backing.to_sequence_lawful _
  have xLawful' : x'.Lawful := Backing.to_sequence_lawful _
  have yLawful' : y'.Lawful := Backing.to_sequence_lawful _
  have aligned : x.length = y.length := by decide
  have aligned' : x'.length = y'.length := by decide
  have length : x.length = x'.length := by decide
  have same : SamePairs x y x' y' := by
    intro index inside
    have bound : index < 3 := inside
    match index with
    | 0 => exact .inl ⟨3, 1, rfl, rfl, rfl, rfl⟩
    | 1 => exact .inr ⟨.inl rfl, .inr rfl⟩
    | 2 => exact .inl ⟨5, 2, rfl, rfl, rfl, rfl⟩
  exact ⟨xLawful, yLawful, xLawful', yLawful', aligned, aligned', length, same,
    (results_depend_on_pairs xLawful yLawful xLawful' yLawful' aligned aligned' length
      same).2.2.2.2.2.2 {}⟩

end Comoment
