import Comoment.Proofs.Columns
import Comoment.Sequence.Window
import Mathlib.Algebra.BigOperators.Group.List.Basic
import Mathlib.Algebra.Ring.Nat

/-!
Windows as sublists. The answers of a window describe the slots of its part of the sequence below,
moved to the start, so that a window of a window is a window, and consecutive windows put together
are the whole sequence.
-/

namespace Comoment

namespace Run

theorem scan_from_shift (valid : Nat → Bool) (offset : Nat) (opened : Option Nat)
    (position remaining : Nat) :
    (scanFrom valid (opened.map (offset + ·)) (offset + position) remaining).map
        (shiftDown offset) =
      scanFrom (fun index => valid (offset + index)) opened position remaining := by
  have moved : ∀ start length,
      shiftDown offset ⟨offset + start, offset + length - (offset + start)⟩ =
        ⟨start, length - start⟩ := by
    intro start length
    simp only [shiftDown, Run.mk.injEq]
    omega
  induction remaining generalizing opened position with
  | zero => cases opened <;> simp [scanFrom, moved]
  | succ remaining ih =>
    have next : offset + position + 1 = offset + (position + 1) := by omega
    cases value : valid (offset + position) with
    | false =>
      have rest := ih none (position + 1)
      cases opened <;> simpa [scanFrom, value, next, moved] using rest
    | true =>
      cases opened with
      | none =>
        have rest := ih (some position) (position + 1)
        simpa [scanFrom, value, next] using rest
      | some start =>
        have rest := ih (some start) (position + 1)
        simpa [scanFrom, value, next] using rest

theorem scan_shift (valid : Nat → Bool) (offset start stop : Nat) :
    (scan valid (offset + start) (offset + stop)).map (shiftDown offset) =
      scan (fun index => valid (offset + index)) start stop := by
  have size : offset + stop - (offset + start) = stop - start := by omega
  have moved := scan_from_shift valid offset none start (stop - start)
  rw [scan, scan, size]
  exact moved

theorem total_length_scan (valid : Nat → Bool) (start stop : Nat) :
    totalLength (scan valid start stop) =
      (List.range (stop - start)).countP fun index => valid (start + index) := by
  rw [total_length_eq, slots_scan, ← List.countP_eq_length_filter, List.range'_eq_map_range,
    List.countP_map]
  rfl

end Run

variable {ε : Type}

namespace Window

theorem count_nulls {window : Window ε} (lawful : window.base.Lawful) :
    window.nullCount =
      (List.range window.length).countP fun index =>
        !window.base.isValid (window.offset + index) := by
  have inside := window.inside
  unfold nullCount
  split
  · rename_i dense
    symm
    apply List.countP_eq_zero.mpr
    intro index found
    rw [List.mem_range] at found
    simp [lawful.valid_of_no_nulls dense (by omega : window.offset + index < window.base.length)]
  · have counted := List.length_eq_countP_add_countP
      (fun index => window.base.isValid (window.offset + index)) (l := List.range window.length)
    have stop : min (window.offset + window.length) window.base.length - window.offset =
        window.length := by omega
    simp only [List.length_range, Bool.not_eq_true, Bool.decide_eq_false] at counted
    rw [lawful.runs_scan, Run.total_length_scan, stop]
    omega

theorem to_sequence_lawful {window : Window ε} (lawful : window.base.Lawful) :
    window.toSequence.Lawful where
  valid_inside := by
    intro index valid
    simp only [toSequence, Bool.and_eq_true, decide_eq_true_eq] at valid
    exact valid.1
  valid_stored := by
    intro index valid
    simp only [toSequence, Bool.and_eq_true] at valid
    exact lawful.valid_stored (window.offset + index) valid.2
  null_count := by
    change window.nullCount = _
    rw [count_nulls lawful]
    apply List.countP_congr
    intro index found
    have inside : index < window.length := List.mem_range.mp found
    simp [toSequence, inside]
  runs_scan := by
    intro offset length
    have inside := window.inside
    change window.runsIn offset length =
      Run.scan window.toSequence.isValid offset (min (offset + length) window.length)
    unfold runsIn
    simp only
    by_cases beyond : window.length ≤ offset
    -- past its end the window asks the sequence below for no slots
    · have start : min offset window.length = window.length := by omega
      rw [Run.scan_empty_window _ (by omega), lawful.runs_scan, start, Nat.sub_self, Nat.min_zero,
        Run.scan_empty_window _ (by omega)]
      rfl
    · have start : min offset window.length = offset := by omega
      have stop : min (window.offset + offset + min length (window.length - offset))
          window.base.length = window.offset + min (offset + length) window.length := by omega
      rw [lawful.runs_scan, start, stop, Run.scan_shift]
      apply Run.scan_congr
      intro index lower upper
      have below : index < window.length := by omega
      simp [toSequence, below]

end Window

namespace Sequence

variable (values : Sequence ε)

theorem to_options_length : values.toOptions.length = values.length := by
  simp [toOptions]

theorem to_options_get? (index : Nat) :
    values.toOptions[index]? =
      if index < values.length then some (values.get? index) else none := by
  unfold toOptions
  by_cases inside : index < values.length
  · simp [inside]
  · simp [inside]

theorem slice_length (offset length : Nat) :
    (values.slice offset length).length =
      min length (values.length - min offset values.length) := rfl

theorem slice_is_valid (offset length index : Nat) :
    (values.slice offset length).isValid index =
      (decide (index < (values.slice offset length).length) &&
        values.isValid (min offset values.length + index)) := rfl

theorem slice_slot (offset length index : Nat) :
    (values.slice offset length).slot index = values.slot (min offset values.length + index) := rfl

theorem slice_get? (offset length index : Nat) :
    (values.slice offset length).get? index =
      if index < (values.slice offset length).length then
        values.get? (min offset values.length + index)
      else none := by
  rw [get?, slice_is_valid, slice_slot]
  by_cases inside : index < (values.slice offset length).length
  · simp [get?, inside]
  · simp [inside]

theorem slice_to_options (offset length : Nat) :
    (values.slice offset length).toOptions =
      (values.toOptions.drop (min offset values.length)).take length := by
  apply List.ext_getElem?
  intro index
  rw [to_options_get?, slice_get?, slice_length, List.getElem?_take, List.getElem?_drop,
    to_options_get?]
  grind

variable {values}

theorem slice_lawful (lawful : values.Lawful) (offset length : Nat) :
    (values.slice offset length).Lawful := by
  have below : (values.window offset length).base.Lawful := lawful
  exact Window.to_sequence_lawful below

/-- A window of a window is a window: it begins later, and ends where both end. -/
theorem slice_slice (lawful : values.Lawful) (offset length innerOffset innerLength : Nat) :
    (values.slice offset length).slice innerOffset innerLength =
      values.slice
        (min offset values.length + min innerOffset (values.slice offset length).length)
        (((values.slice offset length).slice innerOffset innerLength).length) := by
  have place : min (min offset values.length + min innerOffset (values.slice offset length).length)
      values.length =
        min offset values.length + min innerOffset (values.slice offset length).length := by
    rw [slice_length]
    omega
  have size : ((values.slice offset length).slice innerOffset innerLength).length =
      (values.slice
        (min offset values.length + min innerOffset (values.slice offset length).length)
        (((values.slice offset length).slice innerOffset innerLength).length)).length := by
    rw [slice_length values (min offset values.length + _), place, slice_length, slice_length]
    omega
  apply Lawful.eq_of_slots (slice_lawful (slice_lawful lawful _ _) _ _) (slice_lawful lawful _ _)
    size
  · intro index
    rw [slice_is_valid, slice_is_valid, slice_is_valid, ← size, place, Nat.add_assoc]
    by_cases inside : index < ((values.slice offset length).slice innerOffset innerLength).length
    · have below : min innerOffset (values.slice offset length).length + index <
          (values.slice offset length).length := by
        rw [slice_length (values.slice offset length)] at inside
        omega
      simp [below]
    · simp [inside]
  · intro index
    rw [slice_slot, slice_slot, slice_slot, place, Nat.add_assoc]

theorem flat_map_windows {α : Type} (slots : List α) (width count : Nat) :
    ((List.range count).flatMap fun window => (slots.drop (window * width)).take width) =
      slots.take (count * width) := by
  induction count with
  | zero => simp
  | succ count ih =>
    rw [List.range_succ, List.flatMap_append, ih, List.flatMap_singleton, Nat.succ_mul,
      List.take_add]

theorem windows_to_options (values : Sequence ε) {width count : Nat}
    (covered : values.length ≤ count * width) :
    ((List.range count).flatMap fun window =>
        (values.slice (window * width) width).toOptions) = values.toOptions := by
  have clamped : ∀ offset, values.toOptions.drop (min offset values.length) =
      values.toOptions.drop offset := by
    intro offset
    by_cases inside : offset ≤ values.length
    · rw [Nat.min_eq_left inside]
    · rw [List.drop_eq_nil_of_le (by rw [to_options_length]; omega),
        List.drop_eq_nil_of_le (by rw [to_options_length]; omega)]
  simp only [slice_to_options, clamped]
  rw [flat_map_windows, List.take_of_length_le (by rw [to_options_length]; exact covered)]

theorem windows_null_count (lawful : values.Lawful) {width count : Nat}
    (covered : values.length ≤ count * width) :
    ((List.range count).map fun window => (values.slice (window * width) width).nullCount).sum =
      values.nullCount := by
  rw [lawful.null_count_options, ← windows_to_options values covered, List.countP_flatMap]
  congr 1
  apply List.map_congr_left
  intro window _
  exact (slice_lawful lawful (window * width) width).null_count_options

end Sequence

end Comoment
