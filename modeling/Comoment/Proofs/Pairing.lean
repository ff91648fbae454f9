import Comoment.Proofs.Lawful
import Comoment.Sequence.Basic
import Mathlib.Data.List.Basic

/-!
The pairs of two sequences: the values of the slots that are valid on both sides, in order. The
walk over paired runs is the search for them in the window, whichever of its branches is taken.
-/

namespace Comoment

namespace Sequence

variable {ε δ : Type}

def pairedAt (x : Sequence ε) (y : Sequence δ) (index : Nat) : Bool :=
  x.isValid index && y.isValid index

theorem paired_at_comm (x : Sequence ε) (y : Sequence δ) : pairedAt y x = pairedAt x y := by
  funext index
  exact Bool.and_comm _ _

/-- The two values of a slot, if both sequences hold one. -/
def pairAt? (x : Sequence ε) (y : Sequence δ) (index : Nat) : Option (ε × δ) :=
  (x.get? index).bind fun a => (y.get? index).map fun b => (a, b)

def pairs (x : Sequence ε) (y : Sequence δ) : List (ε × δ) :=
  (List.range (min x.length y.length)).filterMap (pairAt? x y)

theorem pair_at_eq_none (x : Sequence ε) (y : Sequence δ) (index : Nat) :
    pairAt? x y index = none ↔ x.get? index = none ∨ y.get? index = none := by
  unfold pairAt?
  cases x.get? index with
  | none => simp
  | some a => simp

section Paired

variable {x : Sequence ε} {y : Sequence δ}

theorem paired_at_past_end (xLawful : x.Lawful) (yLawful : y.Lawful) {index : Nat}
    (past : min x.length y.length ≤ index) : pairedAt x y index = false := by
  by_cases xPast : x.length ≤ index
  · simp [pairedAt, xLawful.null_past_end xPast]
  · simp [pairedAt, yLawful.null_past_end (by omega : y.length ≤ index)]

variable [Inhabited ε] [Inhabited δ]

theorem pair_at_eq (xLawful : x.Lawful) (yLawful : y.Lawful) (index : Nat) :
    pairAt? x y index =
      if pairedAt x y index then some (x.value index, y.value index) else none := by
  rw [pairAt?, xLawful.get_eq, yLawful.get_eq, pairedAt]
  cases x.isValid index <;> cases y.isValid index <;> rfl

theorem filter_map_pair_at (xLawful : x.Lawful) (yLawful : y.Lawful) (slots : List Nat) :
    slots.filterMap (pairAt? x y) =
      (slots.filter (pairedAt x y)).map fun index => (x.value index, y.value index) :=
  filter_map_eq_map_filter (pair_at_eq xLawful yLawful) slots

end Paired

end Sequence

open Sequence

variable {ε δ : Type} {x : Sequence ε} {y : Sequence δ}

theorem runs_in_of_dense (xLawful : x.Lawful) (yLawful : y.Lawful) (dense : y.nullCount = 0)
    (offset length : Nat) :
    x.runsIn offset (min length (min x.length y.length - offset)) =
      Run.scan (pairedAt x y) offset (min (offset + length) (min x.length y.length)) := by
  rw [xLawful.runs_in_clamped (Nat.min_le_left _ _)]
  apply Run.scan_congr
  intro index lower upper
  simp [pairedAt, yLawful.valid_of_no_nulls dense (by omega : index < y.length)]

theorem runs_in_of_dense_first (xLawful : x.Lawful) (yLawful : y.Lawful) (dense : x.nullCount = 0)
    (offset length : Nat) :
    y.runsIn offset (min length (min x.length y.length - offset)) =
      Run.scan (pairedAt x y) offset (min (offset + length) (min x.length y.length)) := by
  rw [← paired_at_comm, Nat.min_comm x.length]
  exact runs_in_of_dense yLawful xLawful dense offset length

/-- Walking the second sequence inside the runs of the first finds the paired runs, with nulls on
either side and without. -/
theorem nested_runs_in (xLawful : x.Lawful) (yLawful : y.Lawful) (offset length : Nat) :
    ((x.runsIn offset (min length (min x.length y.length - offset))).flatMap fun run =>
        y.runsIn run.start run.length) =
      Run.scan (pairedAt x y) offset (min (offset + length) (min x.length y.length)) := by
  let stop := min (offset + length) (min x.length y.length)
  change _ = Run.scan (pairedAt x y) offset stop
  unfold pairedAt
  rw [xLawful.runs_in_clamped (Nat.min_le_left _ _), ← Run.flat_map_scan]
  apply List.flatMap_congr
  intro run found
  rw [yLawful.runs_scan]
  by_cases ordered : offset ≤ stop
  · have bounds := Run.scan_bounds ordered found
    have inside : min run.stop y.length = run.stop := by omega
    rw [← inside]
    rfl
  · rw [Run.scan_empty_window _ (by omega)] at found
    simp at found

/-- The paired walk finds the maximal runs of paired slots in the window. -/
theorem paired_runs_in_eq_scan (xLawful : x.Lawful) (yLawful : y.Lawful) (offset length : Nat) :
    pairedRunsIn x y offset length =
      Run.scan (pairedAt x y) offset (min (offset + length) (min x.length y.length)) := by
  unfold pairedRunsIn
  split
  · rename_i yDense
    exact runs_in_of_dense xLawful yLawful yDense offset length
  · split
    · rename_i xDense
      exact runs_in_of_dense_first xLawful yLawful xDense offset length
    · exact nested_runs_in xLawful yLawful offset length

theorem paired_runs_in_slots (xLawful : x.Lawful) (yLawful : y.Lawful) (offset length : Nat) :
    (pairedRunsIn x y offset length).flatMap Run.slots =
      (List.range' offset (min (offset + length) (min x.length y.length) - offset)).filter
        (pairedAt x y) := by
  rw [paired_runs_in_eq_scan xLawful yLawful, Run.slots_scan]

theorem paired_runs_in_bounds (xLawful : x.Lawful) (yLawful : y.Lawful) {offset length : Nat}
    {run : Run} (found : run ∈ pairedRunsIn x y offset length) :
    offset ≤ run.start ∧ 0 < run.length ∧ run.stop ≤ min x.length y.length := by
  rw [paired_runs_in_eq_scan xLawful yLawful] at found
  by_cases ordered : offset ≤ min (offset + length) (min x.length y.length)
  · have bounds := Run.scan_bounds ordered found
    omega
  · rw [Run.scan_empty_window _ (by omega)] at found
    simp at found

theorem paired_runs_in_total (xLawful : x.Lawful) (yLawful : y.Lawful) (offset length : Nat) :
    Run.totalLength (pairedRunsIn x y offset length) ≤ length := by
  rw [Run.total_length_eq, paired_runs_in_slots xLawful yLawful]
  have kept := List.length_filter_le (pairedAt x y)
    (List.range' offset (min (offset + length) (min x.length y.length) - offset))
  rw [List.length_range'] at kept
  omega

variable [Inhabited ε] [Inhabited δ]

theorem paired_runs_in_values (xLawful : x.Lawful) (yLawful : y.Lawful) (offset length : Nat) :
    ((pairedRunsIn x y offset length).flatMap Run.slots).map
        (fun index => (x.value index, y.value index)) =
      (List.range' offset length).filterMap (pairAt? x y) := by
  let kept := min (offset + length) (min x.length y.length) - offset
  have size : length = kept + (length - kept) := by omega
  have past : (List.range' (offset + kept) (length - kept)).filter (pairedAt x y) = [] := by
    apply List.filter_eq_nil_iff.mpr
    intro index found
    have bounds := List.mem_range'_1.mp found
    simp [paired_at_past_end xLawful yLawful (by omega : min x.length y.length ≤ index)]
  rw [paired_runs_in_slots xLawful yLawful, filter_map_pair_at xLawful yLawful]
  conv_rhs => rw [size, ← List.range'_append_1]
  rw [List.filter_append, past, List.append_nil]

theorem paired_runs_total (xLawful : x.Lawful) (yLawful : y.Lawful) :
    Run.totalLength (pairedRuns x y) = (x.pairs y).length := by
  have values := paired_runs_in_values xLawful yLawful 0 (min x.length y.length)
  rw [← List.range_eq_range'] at values
  rw [Run.total_length_eq, Sequence.pairs, ← values, List.length_map]
  rfl

end Comoment
