import Comoment.Column.Builder
import Comoment.Proofs.BitCount
import Comoment.Proofs.Lawful

/-!
Columns as sequences. The answers of a column describe the same slots, with a bitmap and without
one, and a column that was built by appending holds the slots that were appended.
-/

namespace Comoment

namespace Sequence

variable {ε : Type}

theorem dense_runs_eq_scan (size offset length : Nat) :
    denseRuns size offset length =
      Run.scan (fun index => decide (index < size)) offset (min (offset + length) size) := by
  unfold denseRuns
  by_cases inside : offset < min (offset + length) size
  · have values : ∀ index, offset ≤ index → index < min (offset + length) size →
        decide (index < size) = true := by
      intro index _ upper
      exact decide_eq_true (by omega)
    rw [if_pos inside, Run.scan_eq_cons (Nat.le_refl _) inside (Nat.le_refl _) (by omega) values
      (by omega), Run.scan_empty_window _ (Nat.le_refl _)]
  · rw [if_neg inside, Run.scan_empty_window _ (by omega)]

theorem of_array_lawful (values : Array ε) : (ofArray values).Lawful where
  valid_inside := by
    intro index valid
    exact of_decide_eq_true valid
  valid_stored := by
    intro index valid
    have inside : index < values.size := of_decide_eq_true valid
    exact ⟨values[index], by simp [ofArray, readSlot, inside]⟩
  null_count := by
    symm
    apply List.countP_eq_zero.mpr
    intro index found
    have inside : index < values.size := List.mem_range.mp found
    simp [ofArray, inside]
  runs_scan := dense_runs_eq_scan values.size

namespace Lawful

theorem null_count_options {values : Sequence ε} (lawful : values.Lawful) :
    values.nullCount = values.toOptions.countP Option.isNone := by
  rw [lawful.null_count, toOptions, List.countP_map]
  apply List.countP_congr
  intro index _
  cases valid : values.isValid index with
  | false => simp [get_of_null valid]
  | true =>
    obtain ⟨stored, found⟩ := lawful.valid_stored index valid
    simp [get?, valid, found, Except.toOption]

end Lawful

end Sequence

namespace Column

variable {ε : Type}

theorem to_sequence_lawful (column : Column ε) : column.toSequence.Lawful := by
  obtain ⟨values, validity, covered⟩ := column
  cases validity with
  | none => exact Sequence.of_array_lawful values
  | some bits =>
    have length : bits.length = values.size := covered bits rfl
    constructor
    · intro index valid
      by_cases inside : index < bits.length
      · exact Nat.lt_of_lt_of_eq inside length
      · have null := bits.get_past_end (Nat.le_of_not_lt inside)
        exact absurd (null.symm.trans valid) Bool.false_ne_true
    · intro index valid
      by_cases inside : index < values.size
      · exact ⟨values[index], by simp [toSequence, Sequence.readSlot, inside]⟩
      · have null := bits.get_past_end (by omega : bits.length ≤ index)
        exact absurd (null.symm.trans valid) Bool.false_ne_true
    · have counted := List.length_eq_countP_add_countP bits.get (l := List.range bits.length)
      rw [List.length_range, ← bits.count_set_eq] at counted
      change bits.length - bits.countSet =
        (List.range values.size).countP fun index => !bits.get index
      rw [← length]
      simp only [Bool.not_eq_true, Bool.decide_eq_false] at counted
      omega
    · intro offset count
      change bits.setRuns offset count =
        Run.scan bits.get offset (min (offset + count) values.size)
      rw [bits.set_runs_eq_scan, length]

def masked? (value : ε) (valid : Bool) : Option ε := if valid then some value else none

theorem of_validity_is_valid (values : Array ε) (bits : Bitmap)
    (covered : bits.length = values.size) (index : Nat) :
    (ofValidity values bits covered).isValid index = bits.get index := by
  by_cases nulls : bits.countSet < bits.length
  · simp only [isValid, ofValidity, nulls, if_true]
  · simp only [isValid, ofValidity, nulls, if_false]
    -- the bitmap is gone, but every bit of it was counted as set
    by_cases inside : index < bits.length
    · have counted := bits.count_set_eq
      have atMost : (List.range bits.length).countP bits.get ≤ (List.range bits.length).length :=
        List.countP_le_length
      rw [List.length_range] at atMost
      have every : (List.range bits.length).countP bits.get = (List.range bits.length).length := by
        rw [List.length_range]
        omega
      have set := List.countP_eq_length.mp every index (List.mem_range.mpr inside)
      simp [set, ← covered, inside]
    · simp [bits.get_past_end (Nat.le_of_not_lt inside), ← covered, inside]

theorem of_validity_to_options (values : Array ε) (bits : Bitmap)
    (covered : bits.length = values.size) :
    (ofValidity values bits covered).toOptions =
      List.zipWith masked? values.toList bits.toList := by
  apply List.ext_getElem?
  intro index
  have answer : (ofValidity values bits covered).toSequence.get? index =
      if bits.get index then (Sequence.readSlot values index).toOption else none := by
    rw [← of_validity_is_valid values bits covered index]
    rfl
  have length : (ofValidity values bits covered).toSequence.length = values.size := rfl
  rw [toOptions, Sequence.toOptions, List.getElem?_map, List.getElem?_zipWith, length,
    bits.to_list_get?, covered]
  by_cases inside : index < values.size
  · simp [inside, answer, Sequence.readSlot, masked?, Except.toOption]
  · simp [inside]

end Column

namespace ColumnBuilder

variable {ε : Type}

def slots (builder : ColumnBuilder ε) : List (Option ε) :=
  List.zipWith Column.masked? builder.values.toList builder.validity.toList

theorem slots_lengths (builder : ColumnBuilder ε) :
    builder.values.toList.length = builder.validity.toList.length := by
  rw [Bitmap.to_list_length, builder.covered, Array.length_toList]

theorem slots_append (builder : ColumnBuilder ε) (value : ε) :
    (builder.append value).slots = builder.slots ++ [some value] := by
  unfold slots append
  rw [Array.toList_push, Bitmap.to_list_push, List.zipWith_append builder.slots_lengths]
  rfl

theorem slots_append_copies (builder : ColumnBuilder ε) (value : ε) (count : Nat) :
    (builder.appendCopies value count).slots =
      builder.slots ++ List.replicate count (some value) := by
  unfold slots appendCopies
  rw [Array.toList_append, Array.toList_replicate, Bitmap.to_list_extend,
    List.zipWith_append builder.slots_lengths]
  simp [Column.masked?]

theorem finish_to_options (builder : ColumnBuilder ε) :
    builder.finish.toOptions = builder.slots :=
  Column.of_validity_to_options builder.values builder.validity builder.covered

inductive Step (ε : Type) where
  | append (value : ε)
  | appendCopies (value : ε) (count : Nat)
  | appendNulls (count : Nat)
  | appendOption (slot : Option ε)

namespace Step

def slots : Step ε → List (Option ε)
  | append value => [some value]
  | appendCopies value count => List.replicate count (some value)
  | appendNulls count => List.replicate count none
  | appendOption slot => [slot]

def nulls : Step ε → Nat
  | append _ | appendCopies _ _ | appendOption (some _) => 0
  | appendNulls count => count
  | appendOption none => 1

theorem nulls_eq_count (step : Step ε) : step.nulls = step.slots.countP Option.isNone := by
  cases step with
  | append value => rfl
  | appendCopies value count => simp [nulls, slots, List.countP_replicate]
  | appendNulls count => simp [nulls, slots, List.countP_replicate]
  | appendOption slot => cases slot <;> rfl

theorem slots_append_options (slots : List (Option ε)) :
    (slots.map appendOption).flatMap Step.slots = slots := by
  rw [List.flatMap_map]
  exact List.flatMap_singleton' slots

end Step

def nullsOfSteps (steps : List (Step ε)) : Nat :=
  steps.foldl (fun nulls step => nulls + step.nulls) 0

theorem nulls_of_steps_eq_count (steps : List (Step ε)) :
    nullsOfSteps steps = (steps.flatMap Step.slots).countP Option.isNone := by
  induction steps using List.reverseRecOn with
  | nil => rfl
  | append_singleton steps step ih =>
    rw [List.flatMap_append, List.countP_append, ← ih, List.flatMap_singleton,
      ← Step.nulls_eq_count, nullsOfSteps, List.foldl_append]
    rfl

variable [Inhabited ε]

theorem slots_append_nulls (builder : ColumnBuilder ε) (count : Nat) :
    (builder.appendNulls count).slots = builder.slots ++ List.replicate count none := by
  unfold slots appendNulls
  rw [Array.toList_append, Array.toList_replicate, Bitmap.to_list_extend,
    List.zipWith_append builder.slots_lengths]
  simp [Column.masked?]

theorem slots_append_option (builder : ColumnBuilder ε) (slot : Option ε) :
    (builder.appendOption slot).slots = builder.slots ++ [slot] := by
  cases slot with
  | none => exact builder.slots_append_nulls 1
  | some value => exact builder.slots_append value

def step (builder : ColumnBuilder ε) : Step ε → ColumnBuilder ε
  | .append value => builder.append value
  | .appendCopies value count => builder.appendCopies value count
  | .appendNulls count => builder.appendNulls count
  | .appendOption slot => builder.appendOption slot

theorem slots_step (builder : ColumnBuilder ε) (call : Step ε) :
    (builder.step call).slots = builder.slots ++ call.slots := by
  cases call with
  | append value => exact builder.slots_append value
  | appendCopies value count => exact builder.slots_append_copies value count
  | appendNulls count => exact builder.slots_append_nulls count
  | appendOption slot => exact builder.slots_append_option slot

def ofSteps (steps : List (Step ε)) : ColumnBuilder ε := steps.foldl step empty

theorem slots_of_steps (steps : List (Step ε)) :
    (ofSteps steps).slots = steps.flatMap Step.slots := by
  induction steps using List.reverseRecOn with
  | nil => rfl
  | append_singleton steps call ih =>
    rw [List.flatMap_append, List.flatMap_singleton, ← ih, ← slots_step, ofSteps,
      List.foldl_append]
    rfl

theorem of_steps_to_options (steps : List (Step ε)) :
    (ofSteps steps).finish.toOptions = steps.flatMap Step.slots := by
  rw [finish_to_options, slots_of_steps]

theorem of_steps_null_count (steps : List (Step ε)) :
    (ofSteps steps).finish.nullCount = nullsOfSteps steps := by
  have counted := (ofSteps steps).finish.to_sequence_lawful.null_count_options
  rw [nulls_of_steps_eq_count, ← of_steps_to_options]
  exact counted

end ColumnBuilder

namespace Column

variable {ε : Type} [Inhabited ε]

theorem of_options_eq_of_steps (slots : List (Option ε)) :
    ofOptions slots =
      (ColumnBuilder.ofSteps (slots.map ColumnBuilder.Step.appendOption)).finish := by
  unfold ofOptions ColumnBuilder.ofSteps
  rw [List.foldl_map]
  rfl

theorem of_options_to_options (slots : List (Option ε)) :
    (ofOptions slots).toOptions = slots := by
  rw [of_options_eq_of_steps, ColumnBuilder.of_steps_to_options,
    ColumnBuilder.Step.slots_append_options]

end Column

end Comoment
