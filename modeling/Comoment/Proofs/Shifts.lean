import Comoment.Proofs.CanonicalColumns
import Comoment.Proofs.Windows
import Comoment.RelativeChange
import Mathlib.Data.List.Intervals

/-!
Shifted sequences slot by slot. A slot of the result holds the option `periods` slots before it, or
the filling where the sequence has no such slot: one rule for both directions, and for shifts past
the whole sequence. Two shifts are compared by this rule alone, without the lists that they append.
-/

namespace Comoment

variable {ε : Type}

theorem filter_range_interval {keep : Nat → Bool} {first stop length : Nat} (inside : stop ≤ length)
    (interval : ∀ index < length, keep index = true ↔ first ≤ index ∧ index < stop) :
    (List.range length).filter keep = List.range' first (stop - first) := by
  have bounds : ∀ index ∈ List.range length,
      keep index = (decide (index < stop) && decide (first ≤ index)) := by
    intro index found
    rw [Bool.eq_iff_iff, interval index (List.mem_range.mp found), Bool.and_eq_true,
      decide_eq_true_eq, decide_eq_true_eq, and_comm]
  rw [List.filter_congr bounds, ← List.Ico.zero_bot, ← List.filter_filter, List.Ico.filter_le,
    List.Ico.filter_lt, Nat.zero_max, Nat.min_eq_right inside]
  rfl

namespace Column

theorem of_options_length [Inhabited ε] (slots : List (Option ε)) :
    (ofOptions slots).toSequence.length = slots.length := by
  rw [← Sequence.to_options_length]
  exact congrArg List.length (of_options_to_options slots)

theorem of_options_get? [Inhabited ε] {slots : List (Option ε)} {index : Nat} {slot : Option ε}
    (found : slots[index]? = some slot) : (ofOptions slots).toSequence.get? index = slot := by
  have inside := (List.getElem?_eq_some_iff.mp found).1
  rw [← of_options_to_options slots, toOptions, Sequence.to_options_get?, of_options_length,
    if_pos inside] at found
  exact Option.some.inj found

end Column

namespace ShiftOptions

def vacated (options : ShiftOptions ε) (length : Nat) : Nat := min options.periods.natAbs length

def keeps (options : ShiftOptions ε) (length index : Nat) : Bool :=
  decide (0 ≤ index + options.periods) && decide (index + options.periods < length)

def kept (options : ShiftOptions ε) (length : Nat) : List Nat :=
  List.range' (if 0 < options.periods then 0 else options.vacated length)
    (length - options.vacated length)

theorem kept_eq_filter (options : ShiftOptions ε) (length : Nat) :
    options.kept length = (List.range length).filter (options.keeps length) := by
  unfold kept
  by_cases later : 0 < options.periods
  -- a shift past the whole sequence leaves an empty interval in both directions
  · have interval : ∀ index < length, options.keeps length index = true ↔
        0 ≤ index ∧ index < length - options.vacated length := by
      intro index inside
      simp only [keeps, vacated, Bool.and_eq_true, decide_eq_true_eq]
      omega
    rw [if_pos later, filter_range_interval (Nat.sub_le _ _) interval, Nat.sub_zero]
  · have interval : ∀ index < length, options.keeps length index = true ↔
        options.vacated length ≤ index ∧ index < length := by
      intro index inside
      simp only [keeps, vacated, Bool.and_eq_true, decide_eq_true_eq]
      omega
    rw [if_neg later, filter_range_interval (Nat.le_refl length) interval]

theorem kept_length (options : ShiftOptions ε) (length : Nat) :
    (options.kept length).length = length - options.vacated length := List.length_range'

/-- The calls that append a shifted sequence to a builder: one for all vacated slots, before or
after one for every kept slot. -/
def calls (options : ShiftOptions ε) (values : Sequence ε) : List (ColumnBuilder.Step ε) :=
  let vacated := options.vacated values.length
  let filling : ColumnBuilder.Step ε :=
    match options.fillValue with
    | some value => .appendCopies value vacated
    | none => .appendNulls vacated
  let slots := (options.kept values.length).map fun index =>
    ColumnBuilder.Step.appendOption (values.get? index)
  if 0 < options.periods then filling :: slots else slots ++ [filling]

end ShiftOptions

variable (options : ShiftOptions ε) (values : Sequence ε)

theorem shifted_slots_eq :
    shiftedSlots options values =
      let filling := List.replicate (options.vacated values.length) options.fillValue
      let slots := (options.kept values.length).map values.get?
      if 0 < options.periods then filling ++ slots else slots ++ filling := by
  unfold shiftedSlots ShiftOptions.kept ShiftOptions.vacated
  dsimp only
  split
  · rw [List.range_eq_range']
  · rfl

theorem shifted_slots_length : (shiftedSlots options values).length = values.length := by
  have inside : options.vacated values.length ≤ values.length := Nat.min_le_right _ _
  rw [shifted_slots_eq]
  dsimp only
  split
  · rw [List.length_append, List.length_replicate, List.length_map, options.kept_length]
    omega
  · rw [List.length_append, List.length_replicate, List.length_map, options.kept_length]
    omega

def shiftedSlot (index : Nat) : Option ε :=
  if 0 ≤ index - options.periods ∧ index - options.periods < values.length then
    values.get? (index - options.periods).toNat
  else options.fillValue

theorem shifted_slots_get? {index : Nat} (inside : index < values.length) :
    (shiftedSlots options values)[index]? = some (shiftedSlot options values index) := by
  rw [shifted_slots_eq]
  unfold ShiftOptions.kept ShiftOptions.vacated shiftedSlot
  dsimp only
  by_cases later : 0 < options.periods
  · rw [if_pos later, if_pos later, List.getElem?_append, List.length_replicate,
      List.getElem?_replicate, List.getElem?_map]
    split
    · rename_i vacant
      rw [if_neg (by omega)]
    · rename_i moved
      have place : (index - options.periods).toNat =
          index - min options.periods.natAbs values.length := by omega
      rw [List.getElem?_range' (by omega), if_pos (by omega), place, Nat.one_mul, Nat.zero_add]
      rfl
  · rw [if_neg later, if_neg later, List.getElem?_append, List.length_map, List.length_range',
      List.getElem?_replicate, List.getElem?_map]
    split
    · rename_i moved
      have place : (index - options.periods).toNat =
          min options.periods.natAbs values.length + index := by omega
      rw [List.getElem?_range' (by omega), if_pos (by omega), place, Nat.one_mul]
      rfl
    · rename_i vacant
      rw [if_pos (by omega), if_neg (by omega)]

theorem shifted_slots_nulls :
    (shiftedSlots options values).countP Option.isNone =
      ((List.range values.length).filter (options.keeps values.length)).countP
          (fun index => (values.get? index).isNone) +
        if options.fillValue.isNone then options.vacated values.length else 0 := by
  rw [← options.kept_eq_filter, shifted_slots_eq]
  dsimp only
  split
  · rw [List.countP_append, List.countP_replicate, List.countP_map, Nat.add_comm]
    rfl
  · rw [List.countP_append, List.countP_replicate, List.countP_map]
    rfl

theorem calls_slots :
    (options.calls values).flatMap ColumnBuilder.Step.slots = shiftedSlots options values := by
  have filling (vacated : Nat) :
      (match options.fillValue with
        | some value => ColumnBuilder.Step.appendCopies value vacated
        | none => .appendNulls vacated).slots = List.replicate vacated options.fillValue := by
    cases options.fillValue <;> rfl
  have slots (kept : List Nat) :
      (kept.map fun index => ColumnBuilder.Step.appendOption (values.get? index)).flatMap
        ColumnBuilder.Step.slots = kept.map values.get? := by
    rw [← ColumnBuilder.Step.slots_append_options (kept.map values.get?), List.map_map]
    rfl
  rw [shifted_slots_eq]
  unfold ShiftOptions.calls
  dsimp only
  split
  · rw [List.flatMap_cons, filling, slots]
  · rw [List.flatMap_append, List.flatMap_singleton, filling, slots]

variable [Inhabited ε]

theorem shift_to_options : (shift options values).toOptions = shiftedSlots options values :=
  Column.of_options_to_options _

theorem shift_length : (shift options values).toSequence.length = values.length := by
  rw [shift, Column.of_options_length, shifted_slots_length]

theorem shift_get? {index : Nat} (inside : index < values.length) :
    (shift options values).toSequence.get? index = shiftedSlot options values index :=
  Column.of_options_get? (shifted_slots_get? options values inside)

/-- The bulk calls and the calls for single slots build the same column as the options alone. -/
theorem shift_eq_finish :
    shift options values = (ColumnBuilder.ofSteps (options.calls values)).finish := by
  rw [shift, Column.of_options_eq_of_steps, ColumnBuilder.finish_eq_iff,
    ColumnBuilder.Step.slots_append_options, calls_slots]

/-- The column holds the options of a sequence moved by the periods and the filling elsewhere. Its
nulls are those of the slots that stay, and all vacated slots when nothing fills them. -/
structure Column.IsShift (column : Column ε) (options : ShiftOptions ε) (values : Sequence ε) :
    Prop where
  length : column.length = values.length
  slots : ∀ index : Nat, index < values.length →
    column.toSequence.get? index =
      if 0 ≤ index - options.periods ∧ index - options.periods < values.length then
        values.get? (index - options.periods).toNat
      else options.fillValue
  null_count : column.nullCount =
    ((List.range values.length).filter (options.keeps values.length)).countP
        (fun index => (values.get? index).isNone) +
      if options.fillValue.isNone then min options.periods.natAbs values.length else 0

theorem shift_is_shift : (shift options values).IsShift options values where
  length := shift_length options values
  slots _ inside := shift_get? options values inside
  null_count := by
    have counted := (shift options values).to_sequence_lawful.null_count_options
    rw [← Column.toOptions, shift_to_options, shifted_slots_nulls] at counted
    exact counted

namespace AnyColumn

variable (any : AnyColumn) (periods : Int)

theorem shift_eq_tagged :
    any.shift periods = tagged any.scale any.type (any.column.moved periods) := by
  cases any <;> rfl

theorem shift_type : (any.shift periods).type = any.type := by
  cases any <;> rfl

theorem shift_scale : (any.shift periods).scale = any.scale := by
  cases any <;> rfl

theorem shift_scale? : (any.shift periods).scale? = any.scale? := by
  cases any <;> rfl

end AnyColumn

/-- A shift moves every slot by the periods, whatever their size and sign, and fills the others. Its
two loops and bulk calls build that column. A column of a runtime type is moved in the same way with
null filling, and keeps its type and scale. -/
theorem shift_moves_slots :
    (shift options values).IsShift options values ∧
      shift options values = (ColumnBuilder.ofSteps (options.calls values)).finish ∧
      ∀ (any : AnyColumn) (periods : Int),
        any.shift periods = .tagged any.scale any.type (any.column.moved periods) ∧
          (any.shift periods).type = any.type ∧ (any.shift periods).scale = any.scale ∧
          (any.shift periods).scale? = any.scale? ∧
          (any.column.moved periods).IsShift { periods := periods } any.column.toSequence := by
  refine ⟨shift_is_shift options values, shift_eq_finish options values, ?_⟩
  intro any periods
  exact ⟨any.shift_eq_tagged periods, any.shift_type periods, any.shift_scale periods,
    any.shift_scale? periods, shift_is_shift _ _⟩

/-- The lowest 32 bit integer moves everything out, and one slot to the left keeps the null. -/
example :
    let values := Sequence.ofOptions #[some (7 : Int), none, some 9]
    let out : ShiftOptions Int := { periods := -2147483648, fillValue := some 1 }
    (shift out values).toOptions = [some 1, some 1, some 1] ∧
      (shift { periods := -1 } values).toOptions = [none, some 9, none] := by decide +kernel

theorem shift_eq_shift {outer inner : ShiftOptions ε} {other values : Sequence ε}
    (length : other.length = values.length)
    (slots : ∀ index < values.length,
      shiftedSlot outer other index = shiftedSlot inner values index) :
    shift outer other = shift inner values := by
  unfold shift
  congr 1
  apply List.ext_getElem?
  intro index
  by_cases inside : index < values.length
  · rw [shifted_slots_get? outer other (by omega), shifted_slots_get? inner values inside,
      slots index inside]
  · rw [List.getElem?_eq_none (by rw [shifted_slots_length]; omega),
      List.getElem?_eq_none (by rw [shifted_slots_length]; omega)]

theorem shifted_slot_shift (outer inner : ShiftOptions ε) (index : Nat) :
    shiftedSlot outer (shift inner values).toSequence index =
      if 0 ≤ index - outer.periods ∧ index - outer.periods < values.length then
        shiftedSlot inner values (index - outer.periods).toNat
      else outer.fillValue := by
  conv_lhs => unfold shiftedSlot
  rw [shift_length]
  split
  · exact shift_get? inner values (by omega)
  · rfl

/-- Of two shifts in one direction, neither brings back what the other has moved out. -/
theorem shift_shift (fillValue : Option ε) {first second : Int}
    (direction : 0 ≤ first ∧ 0 ≤ second ∨ first ≤ 0 ∧ second ≤ 0) :
    shift ⟨second, fillValue⟩ (shift ⟨first, fillValue⟩ values).toSequence =
      shift ⟨first + second, fillValue⟩ values := by
  apply shift_eq_shift (shift_length _ _)
  intro index inside
  rw [shifted_slot_shift]
  unfold shiftedSlot
  dsimp only
  by_cases moved : 0 ≤ index - (first + second) ∧ index - (first + second) < values.length
  · have place : ((index - second).toNat - first).toNat = (index - (first + second)).toNat := by
      omega
    rw [if_pos (by omega), if_pos (by omega), if_pos moved, place]
  -- the outer shift may find a slot of the inner one here, but one that holds the filling
  · rw [if_neg moved]
    split
    · rw [if_neg (by omega)]
    · rfl

theorem shift_back_get? (periods : Int) (index : Nat) :
    (shift { periods := -periods }
        (shift { periods := periods } values).toSequence).toOptions[index]? =
      if index < values.length then
        some (if 0 ≤ index + periods ∧ index + periods < values.length then values.get? index
          else none)
      else none := by
  rw [shift_to_options]
  split
  · rename_i inside
    rw [shifted_slots_get? _ _ (by rwa [shift_length]), shifted_slot_shift]
    dsimp only
    rw [Int.sub_neg]
    split
    · have place : (((index + periods).toNat : Int) - periods).toNat = index := by omega
      unfold shiftedSlot
      dsimp only
      rw [if_pos (by omega), place]
    · rfl
  · rename_i past
    exact List.getElem?_eq_none (by rw [shifted_slots_length, shift_length]; omega)

/-- Two shifts in one direction are one shift by the sum of their periods, whatever fills the
vacated slots. A shift with null filling and the shift back leave the sequence as it was, except
that the options that were moved out are null. -/
theorem shifts_compose_and_undo :
    (∀ (fillValue : Option ε) (first second : Int),
      0 ≤ first ∧ 0 ≤ second ∨ first ≤ 0 ∧ second ≤ 0 →
        shift ⟨second, fillValue⟩ (shift ⟨first, fillValue⟩ values).toSequence =
          shift ⟨first + second, fillValue⟩ values) ∧
      ∀ periods : Int,
        let back := shift { periods := -periods } (shift { periods := periods } values).toSequence
        let lost := min periods.natAbs values.length
        (0 < periods → back.toOptions =
          values.toOptions.take (values.length - lost) ++ List.replicate lost none) ∧
          (periods < 0 → back.toOptions =
            List.replicate lost none ++ values.toOptions.drop lost) ∧
          (periods = 0 → back.toOptions = values.toOptions) := by
  refine ⟨fun fillValue _ _ direction => shift_shift values fillValue direction, ?_⟩
  intro periods back lost
  refine ⟨?_, ?_, ?_⟩
  · intro later
    apply List.ext_getElem?
    intro index
    rw [shift_back_get?, List.getElem?_append, List.length_take, Sequence.to_options_length,
      List.getElem?_take, List.getElem?_replicate, Sequence.to_options_get?]
    grind
  · intro earlier
    apply List.ext_getElem?
    intro index
    rw [shift_back_get?, List.getElem?_append, List.length_replicate, List.getElem?_drop,
      List.getElem?_replicate, Sequence.to_options_get?]
    grind
  · intro still
    apply List.ext_getElem?
    intro index
    rw [shift_back_get?, Sequence.to_options_get?]
    grind

/-- Two shifts to the left that are longer than the sequence together, and a shift to the right by
one slot and back. -/
theorem shifts_compose_and_undo_nulls :
    let values := Sequence.ofOptions #[some (5 : Int), none, some 3]
    let left (periods : Int) : ShiftOptions Int := ⟨periods, some 9⟩
    shift (left (-2)) (shift (left (-2)) values).toSequence = shift (left (-4)) values ∧
      (shift (left (-4)) values).toOptions = [some 9, some 9, some 9] ∧
      (shift { periods := -1 } (shift { periods := 1 } values).toSequence).toOptions =
        [some 5, none, none] := by
  intro values left
  have laws := shifts_compose_and_undo values
  have restored := (laws.2 1).1 (by decide)
  exact ⟨laws.1 (some 9) (-2) (-2) (by decide), by decide +kernel, restored.trans (by decide)⟩

end Comoment
