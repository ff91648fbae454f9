import Comoment.Proofs.Run
import Comoment.Sequence.Basic

/-!
What follows from the answers of a sequence describing the same slots, and that the answers of an
array of options do.
-/

namespace Comoment.Sequence

variable {ε : Type}

namespace Lawful

theorem null_past_end {values : Sequence ε} (lawful : values.Lawful) {index : Nat}
    (past : values.length ≤ index) : values.isValid index = false := by
  cases value : values.isValid index with
  | false => rfl
  | true =>
    have inside := lawful.valid_inside index value
    omega

theorem valid_of_no_nulls {values : Sequence ε} (lawful : values.Lawful)
    (noNulls : values.nullCount = 0) {index : Nat} (inside : index < values.length) :
    values.isValid index = true := by
  have counted := lawful.null_count
  rw [noNulls] at counted
  have valid := List.countP_eq_zero.mp counted.symm index (List.mem_range.mpr inside)
  simpa using valid

theorem runs_in_clamped {values : Sequence ε} (lawful : values.Lawful) {bound : Nat}
    (inside : bound ≤ values.length) (offset length : Nat) :
    values.runsIn offset (min length (bound - offset)) =
      Run.scan values.isValid offset (min (offset + length) bound) := by
  rw [lawful.runs_scan]
  by_cases ordered : offset ≤ bound
  · have stop : min (offset + min length (bound - offset)) values.length =
        min (offset + length) bound := by omega
    rw [stop]
  · rw [Run.scan_empty_window _ (by omega), Run.scan_empty_window _ (by omega)]

theorem get_of_valid [Inhabited ε] {values : Sequence ε} (lawful : values.Lawful) {index : Nat}
    (valid : values.isValid index = true) :
    values.get? index = some (values.value index) := by
  obtain ⟨stored, found⟩ := lawful.valid_stored index valid
  simp [get?, value, valid, found, Except.toOption]

theorem get_of_null {values : Sequence ε} {index : Nat}
    (null : values.isValid index = false) : values.get? index = none := by
  simp [get?, null]

theorem get_eq [Inhabited ε] {values : Sequence ε} (lawful : values.Lawful) (index : Nat) :
    values.get? index = if values.isValid index then some (values.value index) else none := by
  cases valid : values.isValid index with
  | false => exact get_of_null valid
  | true => exact lawful.get_of_valid valid

theorem null_count_eq_zero {values : Sequence ε} (lawful : values.Lawful) :
    values.nullCount = 0 ↔ ∀ index < values.length, values.get? index ≠ none := by
  constructor
  · intro noNulls index inside
    have valid := lawful.valid_of_no_nulls noNulls inside
    obtain ⟨stored, found⟩ := lawful.valid_stored index valid
    simp [get?, valid, found, Except.toOption]
  · intro present
    rw [lawful.null_count, List.countP_eq_zero]
    intro index found null
    rw [Bool.not_eq_true'] at null
    exact present index (List.mem_range.mp found) (get_of_null null)

theorem eq_of_slots {first second : Sequence ε} (firstLawful : first.Lawful)
    (secondLawful : second.Lawful) (length : first.length = second.length)
    (valid : ∀ index, first.isValid index = second.isValid index)
    (slot : ∀ index, first.slot index = second.slot index) : first = second := by
  have isValid : first.isValid = second.isValid := funext valid
  have nullCount : first.nullCount = second.nullCount := by
    rw [firstLawful.null_count, secondLawful.null_count, length, isValid]
  have runsIn : first.runsIn = second.runsIn := by
    funext offset count
    rw [firstLawful.runs_scan, secondLawful.runs_scan, length, isValid]
  obtain ⟨_, _, _, _, _⟩ := first
  obtain ⟨_, _, _, _, _⟩ := second
  rw [Sequence.mk.injEq]
  exact ⟨length, nullCount, isValid, funext slot, runsIn⟩

end Lawful

theorem filter_map_eq_map_filter {ρ : Type} {slot : Nat → Option ρ} {valid : Nat → Bool}
    {value : Nat → ρ}
    (each : ∀ index, slot index = if valid index then some (value index) else none)
    (slots : List Nat) : slots.filterMap slot = (slots.filter valid).map value := by
  rw [← List.filterMap_eq_filter, List.map_filterMap]
  congr 1
  funext index
  rw [each, Option.guard]
  cases valid index <;> rfl

theorem map_range_get_d {α : Type} (items : List α) (fallback : α) :
    (List.range items.length).map (fun index => items.getD index fallback) = items := by
  apply List.ext_getElem
  · simp
  · intro index lower upper
    simp [upper]

theorem count_range_get_d {α : Type} (found : Option α → Bool) (slots : List (Option α)) :
    (List.range slots.length).countP (fun index => found (slots.getD index none)) =
      slots.countP found := by
  symm
  calc
    slots.countP found =
        ((List.range slots.length).map fun index => slots.getD index none).countP found := by
      rw [map_range_get_d]
    _ = (List.range slots.length).countP fun index => found (slots.getD index none) :=
      List.countP_map

theorem of_options_lawful [Inhabited ε] (slots : Array (Option ε)) : (ofOptions slots).Lawful where
  valid_inside := by
    intro index valid
    by_cases inside : index < slots.size
    · exact inside
    · simp [ofOptions, inside] at valid
  valid_stored := by
    intro index valid
    by_cases inside : index < slots.size
    · exact ⟨slots[index].getD default, by simp [ofOptions, readSlot, inside, Except.map]⟩
    · simp [ofOptions, inside] at valid
  null_count := by
    have counted := count_range_get_d Option.isNone slots.toList
    simp only [Array.length_toList, Array.countP_toList] at counted
    simp [ofOptions, ← counted]
  runs_scan := fun _ _ => rfl

end Comoment.Sequence
