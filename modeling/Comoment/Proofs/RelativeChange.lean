import Comoment.Proofs.Autocorrelation
import Comoment.RelativeChange

/-!
Relative changes slot by slot. A slot has a change exactly if it and the slot `periods` before it
both hold a value, and no value is an exception, not even a reference of zero. The column is built
from the sequence and its shifted copy, whose vacated slots are nulls like any other.
-/

namespace Comoment

variable {ε α : Type}

namespace Sequence.Lawful

variable {values : Sequence ε} (lawful : values.Lawful)

include lawful

theorem valid_of_get? {index : Nat} {stored : ε} (found : values.get? index = some stored) :
    values.isValid index = true := by
  rw [← lawful.get_is_some, found]
  rfl

theorem lagged_at_is_some (lag : Int) (index : Nat) :
    (values.laggedAt? lag index).isSome = true ↔
      0 ≤ index - lag ∧ index - lag < values.length ∧ values.isValid index = true ∧
        values.isValid (index - lag).toNat = true := by
  rw [← lawful.get_is_some, ← lawful.get_is_some, laggedAt?]
  split
  · rename_i bounds
    have lower : lag ≤ index := Int.sub_nonneg.mp bounds.1
    cases values.get? index <;> simp [lower, bounds.2]
  · rename_i outside
    simp only [Option.isSome_none, Bool.false_eq_true, false_iff]
    rintro ⟨lower, upper, _⟩
    exact outside ⟨lower, upper⟩

theorem lagged_at_eq {lag : Int} {index : Nat} {current earlier : ε} (lower : 0 ≤ index - lag)
    (first : values.get? index = some current)
    (second : values.get? (index - lag).toNat = some earlier) :
    values.laggedAt? lag index = some (current, earlier) := by
  have upper := lawful.valid_inside _ (lawful.valid_of_get? second)
  rw [laggedAt?, if_pos ⟨lower, by omega⟩, first, second]
  rfl

end Sequence.Lawful

variable [Element ε] [Scalar α]

def changeOf (pair : ε × ε) : α :=
  Element.toScalar 0 pair.1 / Element.toScalar 0 pair.2 - Scalar.ofInt 1

namespace Sequence

def changes (values : Sequence ε) (periods : Int) : List (Option α) :=
  (List.range values.length).map fun index => (values.laggedAt? periods index).map changeOf

theorem changes_length (values : Sequence ε) (periods : Int) :
    (values.changes periods : List (Option α)).length = values.length := by
  rw [changes, List.length_map, List.length_range]

theorem changes_get? {values : Sequence ε} {index : Nat} (periods : Int)
    (inside : index < values.length) :
    (values.changes periods : List (Option α))[index]? =
      some ((values.laggedAt? periods index).map changeOf) := by
  rw [changes, List.getElem?_map, List.getElem?_range inside]
  rfl

end Sequence

/-- The column has a slot for every slot of a sequence, with its change against the slot `periods`
before it where both hold a value. All others are null, and counted. -/
structure Column.IsChange (column : Column α) (periods : Int) (values : Sequence ε) : Prop where
  length : column.length = values.length
  valid : ∀ index : Nat, column.isValid index = true ↔
    index < values.length ∧ 0 ≤ index - periods ∧ index - periods < values.length ∧
      values.isValid index = true ∧ values.isValid (index - periods).toNat = true
  slots : ∀ (index : Nat) (current earlier : ε), 0 ≤ index - periods →
    values.get? index = some current → values.get? (index - periods).toNat = some earlier →
      column.toSequence.get? index =
        some (Element.toScalar 0 current / Element.toScalar 0 earlier - Scalar.ofInt 1)
  null_count : column.nullCount =
    (List.range values.length).countP fun index => !column.isValid index

variable [Inhabited α]

/-- The shifted copy answers for every slot, with a null where it has none to show. -/
theorem relative_change_accepted {values : Sequence ε} {periods : Int}
    (accepted : periods ≤ values.length) :
    (relativeChange periods values : Except Error (Column α)) =
      .ok (Column.ofOptions (values.changes periods)) := by
  unfold relativeChange
  rw [if_neg (Int.not_lt.mpr accepted)]
  dsimp only
  congr 2
  apply List.map_congr_left
  intro index found
  rw [shift_get? _ _ (List.mem_range.mp found)]
  unfold shiftedSlot Sequence.laggedAt?
  dsimp only
  split
  · cases values.get? index with
    | none => rfl
    | some current => cases values.get? (index - periods).toNat <;> rfl
  · cases values.get? index <;> rfl

theorem changes_is_change {values : Sequence ε} (lawful : values.Lawful) (periods : Int) :
    (Column.ofOptions (values.changes periods) : Column α).IsChange periods values := by
  have length : (Column.ofOptions (values.changes periods : List (Option α))).toSequence.length =
      values.length := by
    rw [Column.of_options_length, Sequence.changes_length]
  have answers : ∀ index < values.length,
      (Column.ofOptions (values.changes periods : List (Option α))).toSequence.get? index =
        (values.laggedAt? periods index).map changeOf :=
    fun index inside => Column.of_options_get? (Sequence.changes_get? periods inside)
  have column := (Column.ofOptions (values.changes periods : List (Option α))).to_sequence_lawful
  refine ⟨length, ?_, ?_, ?_⟩
  · intro index
    by_cases inside : index < values.length
    · have answer := column.get_is_some index
      rw [answers index inside, Option.isSome_map] at answer
      exact (Bool.eq_iff_iff.mp answer).symm.trans
        ((lawful.lagged_at_is_some periods index).trans (and_iff_right inside).symm)
    · constructor
      · intro valid
        exact absurd (length ▸ column.valid_inside index valid) inside
      · rintro ⟨below, _⟩
        exact absurd below inside
  · intro index current earlier lower first second
    rw [answers index (lawful.valid_inside index (lawful.valid_of_get? first)),
      lawful.lagged_at_eq lower first second]
    rfl
  · have counted := column.null_count
    rw [length] at counted
    exact counted

/-- The relative change fails for periods past the end of the sequence and in no other case. For all
other periods, however far below zero, it is the column of the changes: each is the quotient of the
two values less one, whatever arithmetic that is done in and whatever the reference is. -/
theorem relative_change_outcomes {values : Sequence ε} (lawful : values.Lawful) (periods : Int) :
    (∀ cause, (relativeChange periods values : Except Error (Column α)) = .error cause ↔
      values.length < periods ∧ cause = .periodsOutOfRange periods values.length) ∧
      (periods ≤ values.length →
        ∃ column : Column α, relativeChange periods values = .ok column ∧
          column.IsChange periods values) := by
  refine ⟨?_, ?_⟩
  · intro cause
    by_cases accepted : periods ≤ values.length
    · rw [relative_change_accepted accepted]
      simp [Int.not_lt.mpr accepted]
    · rw [relativeChange, if_pos (Int.not_le.mp accepted)]
      simp [Int.not_le.mp accepted, eq_comm]
  · intro accepted
    exact ⟨_, relative_change_accepted accepted, changes_is_change lawful periods⟩

/-- A reference of zero, a null on either side, no shift, a shift by all slots, the lowest 32 bit
integer, and one slot more than there are. -/
theorem relative_change_outcomes_nulls :
    let values := Sequence.ofOptions #[some (0 : Int8), some 5, none, some 10]
    values.Lawful ∧
      (∃ column : Column Float, relativeChange 1 values = .ok column ∧ column.nullCount = 3 ∧
        column.toSequence.get? 1 = some (1.0 / 0.0)) ∧
      (∃ column : Column Float, relativeChange 0 values = .ok column ∧ column.nullCount = 1) ∧
      (∃ column : Column Float, relativeChange 4 values = .ok column ∧ column.nullCount = 4) ∧
      (∃ column : Column Float, relativeChange (-2147483648) values = .ok column ∧
        column.nullCount = 4) ∧
      relativeChange 5 values =
        (.error (.periodsOutOfRange 5 4) : Except Error (Column Float)) := by
  intro values
  have lawful : values.Lawful := Sequence.of_options_lawful _
  have outcomes (periods : Int) := relative_change_outcomes (α := Float) lawful periods
  have nulls {column : Column Float} {periods : Int} (changed : column.IsChange periods values) :
      column.nullCount = (List.range 4).countP fun index : Nat => !decide (index < 4 ∧
        0 ≤ index - periods ∧ index - periods < 4 ∧ values.isValid index = true ∧
          values.isValid (index - periods).toNat = true) := by
    rw [changed.null_count]
    apply List.countP_congr
    intro index _
    rw [Bool.eq_iff_iff.mpr ((changed.valid index).trans decide_eq_true_iff.symm)]
    rfl
  refine ⟨lawful, ?_, ?_, ?_, ?_, ((outcomes 5).1 _).mpr ⟨by decide, rfl⟩⟩
  · obtain ⟨column, found, changed⟩ := (outcomes 1).2 (by decide)
    refine ⟨column, found, (nulls changed).trans (by decide), ?_⟩
    exact (changed.slots 1 5 0 (by decide) rfl rfl).trans (by decide +kernel)
  · obtain ⟨column, found, changed⟩ := (outcomes 0).2 (by decide)
    exact ⟨column, found, (nulls changed).trans (by decide)⟩
  · obtain ⟨column, found, changed⟩ := (outcomes 4).2 (by decide)
    exact ⟨column, found, (nulls changed).trans (by decide)⟩
  · obtain ⟨column, found, changed⟩ := (outcomes (-2147483648)).2 (by decide)
    exact ⟨column, found, (nulls changed).trans (by decide)⟩

end Comoment
