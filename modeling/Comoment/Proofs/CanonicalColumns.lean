import Comoment.Proofs.Columns

/-!
Built columns as normal forms of lists of options. A builder keeps contents, bits and a count of
nulls, and each call updates the three in its own way. The finished column is determined by the
options that were appended, and nothing else of the history is left in it.
-/

namespace Comoment

/-- Contents, bitmap and count of nulls of a column, which need not fit together. -/
structure ColumnParts (ε : Type) where
  values : Array ε
  validity : Option Bitmap
  nullCount : Nat
  deriving DecidableEq

namespace ColumnParts

variable {ε : Type}

def ofCounted (values : Array ε) (bits : Bitmap) (nullCount : Nat) : ColumnParts ε where
  values := values
  validity := if 0 < nullCount then some bits else none
  nullCount := nullCount

def masked (values : Array ε) (bits : Bitmap) : Except Error (ColumnParts ε) :=
  if values.size = bits.length then .ok (ofCounted values bits (values.size - bits.countSet))
  else .error (.validityLength values.size bits.length)

end ColumnParts

/-- A builder that counts nulls as they are appended. -/
structure CountingBuilder (ε : Type) where
  values : Array ε
  validity : Bitmap
  nullCount : Nat

namespace CountingBuilder

variable {ε : Type}

def empty : CountingBuilder ε := ⟨#[], Bitmap.empty, 0⟩

def append (builder : CountingBuilder ε) (value : ε) : CountingBuilder ε :=
  { builder with values := builder.values.push value, validity := builder.validity.push true }

def appendCopies (builder : CountingBuilder ε) (value : ε) (count : Nat) : CountingBuilder ε :=
  { builder with
    values := builder.values ++ Array.replicate count value
    validity := builder.validity.extend count true }

def finish (builder : CountingBuilder ε) : ColumnParts ε :=
  .ofCounted builder.values builder.validity builder.nullCount

variable [Inhabited ε]

def appendNulls (builder : CountingBuilder ε) (count : Nat) : CountingBuilder ε where
  values := builder.values ++ Array.replicate count default
  validity := builder.validity.extend count false
  nullCount := builder.nullCount + count

def step (builder : CountingBuilder ε) : ColumnBuilder.Step ε → CountingBuilder ε
  | .append value => builder.append value
  | .appendCopies value count => builder.appendCopies value count
  | .appendNulls count => builder.appendNulls count
  | .appendOption (some value) => builder.append value
  | .appendOption none => builder.appendNulls 1

def ofSteps (steps : List (ColumnBuilder.Step ε)) : CountingBuilder ε := steps.foldl step empty

end CountingBuilder

namespace Column

variable {ε : Type}

def parts (column : Column ε) : ColumnParts ε :=
  ⟨column.values, column.validity, column.nullCount⟩

/-- The column holds the options and counts their nulls, and it has a bit for each of them exactly
if one is null. -/
structure Describes (column : Column ε) (slots : List (Option ε)) : Prop where
  to_options : column.toOptions = slots
  null_count : column.nullCount = slots.countP Option.isNone
  dense : column.validity = none ↔ none ∉ slots
  bits : ∀ validity, column.validity = some validity → validity.toList = slots.map Option.isSome

theorem of_validity_parts (values : Array ε) (bits : Bitmap)
    (covered : bits.length = values.size) :
    (ofValidity values bits covered).parts =
      .ofCounted values bits (bits.length - bits.countSet) := by
  by_cases nulls : bits.countSet < bits.length
  · have positive : 0 < bits.length - bits.countSet := Nat.sub_pos_of_lt nulls
    simp only [parts, nullCount, ofValidity, ColumnParts.ofCounted, if_pos nulls, if_pos positive]
  · have zero : bits.length - bits.countSet = 0 := by omega
    simp only [parts, nullCount, ofValidity, ColumnParts.ofCounted, if_neg nulls, zero,
      Nat.lt_irrefl, if_false]

theorem masked_parts (values : Array ε) (bits : Bitmap) :
    ColumnParts.masked values bits = (masked values bits).map parts := by
  unfold ColumnParts.masked masked
  by_cases covered : bits.length = values.size
  · rw [if_pos covered.symm, dif_pos covered, Except.map, of_validity_parts, covered]
  · have different : ¬values.size = bits.length := fun same => covered same.symm
    rw [if_neg different, dif_neg covered]
    rfl

theorem zip_masked_is_some {values : List ε} {bits : List Bool}
    (length : values.length = bits.length) :
    (List.zipWith masked? values bits).map Option.isSome = bits := by
  induction values generalizing bits with
  | nil =>
    cases bits with
    | nil => rfl
    | cons bit bits => simp at length
  | cons value values ih =>
    cases bits with
    | nil => simp at length
    | cons bit bits =>
      have rest := ih (Nat.succ.inj length)
      rw [List.zipWith_cons_cons, List.map_cons, rest]
      cases bit <;> rfl

theorem of_validity_describes (values : Array ε) (bits : Bitmap)
    (covered : bits.length = values.size) :
    (ofValidity values bits covered).Describes
      (List.zipWith masked? values.toList bits.toList) := by
  let column := ofValidity values bits covered
  have parts := of_validity_parts values bits covered
  have validity : column.validity = if 0 < column.nullCount then some bits else none := by
    rw [show column.nullCount = bits.length - bits.countSet from congrArg (·.nullCount) parts]
    exact congrArg (·.validity) parts
  have options := of_validity_to_options values bits covered
  have counted : column.nullCount =
      (List.zipWith masked? values.toList bits.toList).countP Option.isNone := by
    rw [← options]
    exact column.to_sequence_lawful.null_count_options
  have lengths : values.toList.length = bits.toList.length := by
    rw [bits.to_list_length, covered, Array.length_toList]
  refine ⟨options, counted, ?_, ?_⟩
  · have positive : column.validity = none ↔ column.nullCount = 0 := by
      rw [validity]
      split <;> simp <;> omega
    rw [positive, counted, List.countP_eq_zero]
    constructor
    · intro present null
      exact present none null rfl
    · intro absent slot found null
      exact absent (Option.isNone_iff_eq_none.mp null ▸ found)
  · intro kept found
    change column.validity = some kept at found
    rw [validity] at found
    split at found
    · rw [← Option.some.inj found, zip_masked_is_some lengths]
    · simp at found

end Column

namespace ColumnBuilder

variable {ε : Type}

def counted (builder : ColumnBuilder ε) : CountingBuilder ε :=
  ⟨builder.values, builder.validity, builder.slots.countP Option.isNone⟩

theorem validity_slots (builder : ColumnBuilder ε) :
    builder.validity.toList = builder.slots.map Option.isSome :=
  (Column.zip_masked_is_some builder.slots_lengths).symm

theorem finish_describes (builder : ColumnBuilder ε) : builder.finish.Describes builder.slots :=
  Column.of_validity_describes builder.values builder.validity builder.covered

theorem finish_counted (builder : ColumnBuilder ε) :
    builder.counted.finish = builder.finish.parts := by
  have described := builder.finish_describes.null_count
  have parts := Column.of_validity_parts builder.values builder.validity builder.covered
  have counted : builder.slots.countP Option.isNone =
      builder.validity.length - builder.validity.countSet := by
    rw [← described]
    exact congrArg (·.nullCount) parts
  change ColumnParts.ofCounted _ _ (builder.slots.countP Option.isNone) = _
  rw [counted]
  exact parts.symm

variable [Inhabited ε]

theorem counted_step (builder : ColumnBuilder ε) (call : Step ε) :
    builder.counted.step call = (builder.step call).counted := by
  have nulls : (builder.step call).slots.countP Option.isNone =
      builder.slots.countP Option.isNone + call.nulls := by
    rw [slots_step, List.countP_append, call.nulls_eq_count]
  unfold counted
  rw [nulls]
  cases call with
  | append value => rfl
  | appendCopies value count => rfl
  | appendNulls count => rfl
  | appendOption slot => cases slot <;> rfl

theorem counted_of_steps (steps : List (Step ε)) :
    CountingBuilder.ofSteps steps = (ofSteps steps).counted := by
  induction steps using List.reverseRecOn with
  | nil => rfl
  | append_singleton steps call ih =>
    unfold CountingBuilder.ofSteps ofSteps at ih ⊢
    rw [List.foldl_append, List.foldl_append, ih]
    exact counted_step _ call

def Filled (builder : ColumnBuilder ε) : Prop :=
  builder.values.toList = builder.slots.map fun slot => slot.getD default

theorem step_values (builder : ColumnBuilder ε) (call : Step ε) :
    (builder.step call).values.toList =
      builder.values.toList ++ call.slots.map fun slot => slot.getD default := by
  cases call with
  | append value => exact Array.toList_push
  | appendCopies value count => simp [step, appendCopies, Step.slots]
  | appendNulls count => simp [step, appendNulls, Step.slots]
  | appendOption slot =>
    cases slot with
    | none => simp [step, appendOption, appendNulls, Step.slots]
    | some value => exact Array.toList_push

theorem of_steps_filled (steps : List (Step ε)) : (ofSteps steps).Filled := by
  induction steps using List.reverseRecOn with
  | nil => rfl
  | append_singleton steps call ih =>
    unfold Filled ofSteps at ih ⊢
    rw [List.foldl_append, List.foldl_cons, List.foldl_nil, step_values, slots_step,
      List.map_append, ih]

theorem of_steps_eq {first second : List (Step ε)}
    (same : first.flatMap Step.slots = second.flatMap Step.slots) :
    ofSteps first = ofSteps second := by
  have slots : (ofSteps first).slots = (ofSteps second).slots := by
    rw [slots_of_steps, slots_of_steps, same]
  have values : (ofSteps first).values = (ofSteps second).values := by
    apply Array.toList_inj.mp
    rw [of_steps_filled first, of_steps_filled second, slots]
  have validity : (ofSteps first).validity = (ofSteps second).validity := by
    apply Bitmap.eq_of_to_list_eq
    rw [validity_slots, validity_slots, slots]
  rw [ColumnBuilder.mk.injEq]
  exact ⟨values, validity⟩

theorem finish_eq_iff (first second : List (Step ε)) :
    (ofSteps first).finish = (ofSteps second).finish ↔
      first.flatMap Step.slots = second.flatMap Step.slots := by
  constructor
  · intro same
    rw [← of_steps_to_options, same, of_steps_to_options]
  · intro same
    rw [of_steps_eq same]

end ColumnBuilder

/-- A built column is determined by the options that were appended, whatever calls appended them:
it holds them, with a placeholder in every null slot, it has a bitmap exactly if one is null, and
the count of nulls kept along the way is theirs. Two histories finish to one column exactly if they
append the same options, and building from the options of a built column gives it back. A column
made of values and a bitmap holds the masked values and keeps bitmap and count in the same way. -/
theorem built_columns_are_canonical {ε : Type} [Inhabited ε]
    (steps : List (ColumnBuilder.Step ε)) :
    let column := (ColumnBuilder.ofSteps steps).finish
    let slots := steps.flatMap ColumnBuilder.Step.slots
    column.Describes slots ∧
      column.values.toList = slots.map (fun slot => slot.getD default) ∧
      (CountingBuilder.ofSteps steps).finish = column.parts ∧
      (∀ other : List (ColumnBuilder.Step ε),
        (ColumnBuilder.ofSteps other).finish = column ↔
          other.flatMap ColumnBuilder.Step.slots = slots) ∧
      (∀ options : List (Option ε), (Column.ofOptions options).toOptions = options) ∧
      Column.ofOptions column.toOptions = column ∧
      ∀ (values : Array ε) (bits : Bitmap),
        ColumnParts.masked values bits = (Column.masked values bits).map Column.parts ∧
          match Column.masked values bits with
          | .ok masked =>
              bits.length = values.size ∧ masked.values = values ∧
                masked.Describes (List.zipWith Column.masked? values.toList bits.toList)
          | .error cause =>
              bits.length ≠ values.size ∧ cause = .validityLength values.size bits.length := by
  intro column slots
  have listed : (ColumnBuilder.ofSteps steps).slots = slots := ColumnBuilder.slots_of_steps steps
  have described := (ColumnBuilder.ofSteps steps).finish_describes
  rw [listed] at described
  refine ⟨described, ?_, ?_, fun other => ColumnBuilder.finish_eq_iff other steps,
    Column.of_options_to_options, ?_, fun values bits => ⟨Column.masked_parts values bits, ?_⟩⟩
  · rw [← listed]
    exact ColumnBuilder.of_steps_filled steps
  · rw [ColumnBuilder.counted_of_steps]
    exact (ColumnBuilder.ofSteps steps).finish_counted
  · rw [described.to_options, Column.of_options_eq_of_steps, ColumnBuilder.finish_eq_iff,
      ColumnBuilder.Step.slots_append_options]
  · unfold Column.masked
    by_cases covered : bits.length = values.size
    · rw [dif_pos covered]
      exact ⟨covered, rfl, Column.of_validity_describes values bits covered⟩
    · rw [dif_neg covered]
      exact ⟨covered, rfl⟩

/-- Two histories of the same options, one value at a time and in bulk. -/
example :
    (ColumnBuilder.ofSteps (ε := Int)
      [.appendNulls 2, .append 5, .appendCopies 7 2, .appendOption none]).finish =
    Column.ofOptions [none, none, some 5, some 7, some 7, none] := by decide +kernel

end Comoment
