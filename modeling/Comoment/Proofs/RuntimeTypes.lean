import Comoment.AnyColumn
import Comoment.Proofs.Columns
import Comoment.Proofs.Outcomes

/-!
Aggregations over columns whose type is known only when the program runs. Three tables have to agree
for every pair of types: the accumulations, the element types that are computed with, and the arms
of the aggregations. A refusal looks at the first type, at the second, at both, and last at the
lengths. What is not refused is what the typed state makes of the two columns inside.
-/

namespace Comoment

def Strategy.Accepts (type : DataType) : Prop := ∃ strategy, select type = .ok strategy

namespace DataType

variable {type : DataType} {element : Element type.Carrier}

theorem element_data_type (found : type.element? = some element) : element.dataType = type := by
  cases type <;> cases found <;> rfl

theorem element_selected (found : type.element? = some element) :
    Strategy.select type = .ok element.reading.strategy := by
  have table := element.select_dataType
  rwa [element_data_type found] at table

end DataType

namespace Strategy

variable {type : DataType}

theorem select_error_iff {cause : Error} :
    select type = .error cause ↔ type.element? = none ∧ cause = .unsupportedType type := by
  cases type <;> simp [select, DataType.element?, eq_comm]

theorem not_accepts_iff : ¬Accepts type ↔ select type = .error (.unsupportedType type) := by
  unfold Accepts
  cases selected : select type with
  | ok strategy => simp
  | error cause => simp [(select_error_iff.mp selected).2]

theorem accepts_iff : Accepts type ↔ ∃ element, type.element? = some element := by
  constructor
  · intro accepted
    cases found : type.element? with
    | none => exact absurd accepted (not_accepts_iff.mpr (select_error_iff.mpr ⟨found, rfl⟩))
    | some element => exact ⟨element, rfl⟩
  · rintro ⟨element, found⟩
    exact ⟨_, DataType.element_selected found⟩

end Strategy

namespace AnyColumn

theorem tagged_self (any : AnyColumn) : tagged any.scale any.type any.column = any := by
  cases any <;> rfl

theorem tagged_length (scale : Int) (type : DataType) (column : Column type.Carrier) :
    (tagged scale type column).length = column.length := by
  cases type <;> rfl

theorem exists_tagged (any : AnyColumn) {type : DataType} (tag : any.type = type) :
    ∃ (scale : Int) (column : Column type.Carrier), any = tagged scale type column := by
  subst tag
  exact ⟨any.scale, any.column, any.tagged_self.symm⟩

inductive Refused (x y : AnyColumn) : Error → Prop
  | first : ¬Strategy.Accepts x.type → Refused x y (.unsupportedType x.type)
  | second : Strategy.Accepts x.type → ¬Strategy.Accepts y.type →
      Refused x y (.unsupportedType y.type)
  | types : Strategy.Accepts x.type → Strategy.Accepts y.type → x.type ≠ y.type →
      Refused x y (.typeMismatch x.type y.type)
  | lengths : Strategy.Accepts x.type → x.type = y.type → x.length ≠ y.length →
      Refused x y (.lengthMismatch x.length y.length)

theorem dispatch_error_first {x y : DataType} (refused : ¬Strategy.Accepts x) :
    dispatchError x y = .unsupportedType x := by
  unfold dispatchError
  rw [Strategy.not_accepts_iff.mp refused]

theorem dispatch_error_second {x y : DataType} (accepted : Strategy.Accepts x)
    (refused : ¬Strategy.Accepts y) : dispatchError x y = .unsupportedType y := by
  obtain ⟨strategy, selected⟩ := accepted
  unfold dispatchError
  rw [selected, Strategy.not_accepts_iff.mp refused]

theorem dispatch_error_types {x y : DataType} (first : Strategy.Accepts x)
    (second : Strategy.Accepts y) : dispatchError x y = .typeMismatch x y := by
  obtain ⟨_, selectedX⟩ := first
  obtain ⟨_, selectedY⟩ := second
  unfold dispatchError
  rw [selectedX, selectedY]

theorem refused_iff_of_apart {x y : AnyColumn} (apart : Strategy.Accepts x.type → x.type ≠ y.type)
    (cause : Error) : Refused x y cause ↔ cause = dispatchError x.type y.type := by
  constructor
  · intro refused
    cases refused with
    | first refused => exact (dispatch_error_first refused).symm
    | second accepted refused => exact (dispatch_error_second accepted refused).symm
    | types first second _ => exact (dispatch_error_types first second).symm
    | lengths accepted same _ => exact absurd same (apart accepted)
  · rintro rfl
    by_cases first : Strategy.Accepts x.type
    · by_cases second : Strategy.Accepts y.type
      · rw [dispatch_error_types first second]
        exact .types first second (apart first)
      · rw [dispatch_error_second first second]
        exact .second first second
    · rw [dispatch_error_first first]
      exact .first first

theorem refused_iff_of_same {x y : AnyColumn} (accepted : Strategy.Accepts x.type)
    (same : x.type = y.type) (cause : Error) :
    Refused x y cause ↔ x.length ≠ y.length ∧ cause = .lengthMismatch x.length y.length := by
  constructor
  · intro refused
    cases refused with
    | first refused => exact absurd accepted refused
    | second _ refused => exact absurd (same ▸ accepted) refused
    | types _ _ different => exact absurd same different
    | lengths _ _ different => exact ⟨different, rfl⟩
  · rintro ⟨different, rfl⟩
    exact .lengths accepted same different

section Dispatch

variable {β : Type}
  (aggregate : {ε : Type} → [Element ε] → Int → Sequence ε → Sequence ε → Except Error β)

/-- The arms are those of the types that are computed with. Columns of one such type are given to
the aggregation as they are, with the scale of the first. -/
theorem dispatch_tagged {type : DataType} {element : Element type.Carrier}
    (found : type.element? = some element) (first second : Column type.Carrier)
    (scale other : Int) :
    dispatch aggregate (tagged scale type first) (tagged other type second) =
      aggregate (tagged scale type first).scale first.toSequence second.toSequence := by
  cases type <;> cases found <;> rfl

theorem dispatch_of_apart {x y : AnyColumn} (apart : Strategy.Accepts x.type → x.type ≠ y.type) :
    dispatch aggregate x y = .error (dispatchError x.type y.type) := by
  unfold dispatch
  split
  case h_12 => rfl
  all_goals exact absurd rfl (apart ⟨_, rfl⟩)

def FailsByLength : Prop :=
  ∀ {ε : Type} [Element ε] (scale : Int) {x y : Sequence ε}, x.Lawful → y.Lawful →
    ∀ cause, aggregate scale x y = .error cause ↔
      x.length ≠ y.length ∧ cause = .lengthMismatch x.length y.length

variable {aggregate}

theorem dispatch_error_iff (fails : FailsByLength aggregate) (x y : AnyColumn) (cause : Error) :
    dispatch aggregate x y = .error cause ↔ Refused x y cause := by
  by_cases accepted : Strategy.Accepts x.type
  · by_cases same : x.type = y.type
    · rw [refused_iff_of_same accepted same]
      generalize tag : x.type = type at accepted same
      obtain ⟨element, found⟩ := Strategy.accepts_iff.mp accepted
      obtain ⟨scale, first, rfl⟩ := x.exists_tagged tag
      obtain ⟨other, second, rfl⟩ := y.exists_tagged same.symm
      rw [dispatch_tagged aggregate found, tagged_length, tagged_length]
      exact fails _ first.to_sequence_lawful second.to_sequence_lawful cause
    · rw [dispatch_of_apart aggregate fun _ => same, refused_iff_of_apart fun _ => same,
        Except.error.injEq, eq_comm]
  · have apart : Strategy.Accepts x.type → x.type ≠ y.type :=
      fun supported => absurd supported accepted
    rw [dispatch_of_apart aggregate apart, refused_iff_of_apart apart, Except.error.injEq, eq_comm]

end Dispatch

section Aggregations

variable {ε α : Type} [Element ε] [Scalar α] (options : VarianceOptions) (scale : Int)
  (x y : Sequence ε)

theorem covariance_scaled_eq :
    (covarianceScaled scale options x y : Except Error (Option α)) =
      ((CovarianceState.empty options scale).consume x y).map CovarianceState.value? := by
  unfold covarianceScaled
  cases (CovarianceState.empty options scale : CovarianceState ε α).consume x y <;> rfl

theorem correlation_scaled_eq [SquareRoot α] :
    (correlationScaled scale options x y : Except Error (Option α)) =
      ((CorrelationState.empty options scale).consume x y).map CorrelationState.value? := by
  unfold correlationScaled
  cases (CorrelationState.empty options scale : CorrelationState ε α).consume x y <;> rfl

variable {x y}

omit [Element ε] in
theorem map_error_iff_of_lengths {σ β : Type} {outcome : Except Error σ} (value : σ → β)
    (succeeds : x.length = y.length → ∃ state, outcome = .ok state)
    (fails : x.length ≠ y.length → outcome = .error (.lengthMismatch x.length y.length))
    (cause : Error) :
    outcome.map value = .error cause ↔
      x.length ≠ y.length ∧ cause = .lengthMismatch x.length y.length := by
  by_cases aligned : x.length = y.length
  · obtain ⟨state, reached⟩ := succeeds aligned
    simp [reached, Except.map, aligned]
  · simp [fails aligned, Except.map, aligned, eq_comm]

omit [Element ε] in
theorem covariance_fails_by_length :
    FailsByLength (β := Option α) fun scale x y => covarianceScaled scale options x y := by
  intro ε _ scale x y xLawful yLawful cause
  dsimp only
  rw [covariance_scaled_eq]
  apply map_error_iff_of_lengths
  · intro aligned
    exact ⟨_, CovarianceState.consume_empty xLawful yLawful aligned options scale⟩
  · intro misaligned
    exact CovarianceState.consume_misaligned _ misaligned

omit [Element ε] in
/-- The state is fresh, so that the refusal of a second chunk is not among the failures. -/
theorem correlation_fails_by_length [SquareRoot α] :
    FailsByLength (β := Option α) fun scale x y => correlationScaled scale options x y := by
  intro ε _ scale x y xLawful yLawful cause
  dsimp only
  rw [correlation_scaled_eq]
  apply map_error_iff_of_lengths
  · intro aligned
    exact ⟨_, CorrelationState.consume_empty xLawful yLawful aligned options scale⟩
  · intro misaligned
    exact CorrelationState.consume_empty_misaligned misaligned options scale

end Aggregations

/-- The tables agree: a type is accepted exactly if it is computed with, under its own tag and
accumulation. Two columns of such a type have the covariance and the correlation that the typed
state has for the columns inside, with the scale of the first for both. Both aggregations are
refused in the same cases and with the same cause, and the variance is the covariance of a column
with itself. -/
theorem aggregations_follow_types {α : Type} [Scalar α] [SquareRoot α]
    (options : VarianceOptions) :
    (∀ type, Strategy.Accepts type ↔ ∃ element, type.element? = some element) ∧
      (∀ (type : DataType) [element : Element type.Carrier], type.element? = some element →
        element.dataType = type ∧ Strategy.select type = .ok element.reading.strategy ∧
          ∀ (first second : Column type.Carrier) (scale other : Int),
            let x := tagged scale type first
            let y := tagged other type second
            let covarianceState : CovarianceState type.Carrier α := .empty options x.scale
            let correlationState : CorrelationState type.Carrier α := .empty options x.scale
            covariance options x y =
                (covarianceState.consume first.toSequence second.toSequence).map
                  CovarianceState.value? ∧
              correlation options x y =
                (correlationState.consume first.toSequence second.toSequence).map
                  CorrelationState.value?) ∧
      (∀ any : AnyColumn, tagged any.scale any.type any.column = any) ∧
      ∀ x y : AnyColumn,
        (∀ cause, (covariance options x y : Except Error (Option α)) = .error cause ↔
          Refused x y cause) ∧
          (∀ cause, (correlation options x y : Except Error (Option α)) = .error cause ↔
            Refused x y cause) ∧
          variance options x = (covariance options x x : Except Error (Option α)) := by
  refine ⟨fun type => Strategy.accepts_iff, ?_, tagged_self, ?_⟩
  · intro type element found
    refine ⟨DataType.element_data_type found, DataType.element_selected found, ?_⟩
    intro first second scale other x y covarianceState correlationState
    exact ⟨(dispatch_tagged _ found first second scale other).trans
        (covariance_scaled_eq options x.scale first.toSequence second.toSequence),
      (dispatch_tagged _ found first second scale other).trans
        (correlation_scaled_eq options x.scale first.toSequence second.toSequence)⟩
  · intro x y
    exact ⟨dispatch_error_iff (covariance_fails_by_length options) x y,
      dispatch_error_iff (correlation_fails_by_length options) x y, rfl⟩

/-- Integers of 16 bits do not meet halves, which are stored in as many, and decimals are read with
the scale of the first operand. -/
example :
    let words := ofColumn .uint16 (.ofArray #[(1 : UInt16), 2])
    let halves := ofColumn .float16 (.ofArray #[(⟨1⟩ : Half)])
    let cents (scale : Int) :=
      ofDecimals (.ofArray #[{ unscaled := 100 }, { unscaled := 300 }]) scale
    (covariance {} words halves : Except Error (Option ℚ)) = .error (.unsupportedType .float16) ∧
      covariance {} (cents 2) (cents 5) = .ok (some (1 : ℚ)) := by decide +kernel

end AnyColumn

end Comoment
