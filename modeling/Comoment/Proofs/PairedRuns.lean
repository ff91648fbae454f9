import Comoment.Proofs.MaximalRuns
import Comoment.Proofs.Pairing
import Mathlib.Data.List.Nodup

/-!
The walk over the slots that two sequences share. Its three branches give one answer: the maximal
runs of slots that are valid on both sides. In the nested branch two runs never touch, because the
runs of the second sequence inside one run of the first end where the window or a null ends them.
-/

namespace Comoment

open Sequence

variable {ε δ : Type} {x : Sequence ε} {y : Sequence δ}

theorem paired_runs_in_maximal (xLawful : x.Lawful) (yLawful : y.Lawful) (offset length : Nat) :
    Run.AscendingMaximal (x.pairedAt y) offset
      (min (offset + length) (min x.length y.length)) (pairedRunsIn x y offset length) := by
  rw [paired_runs_in_eq_scan xLawful yLawful]
  exact Run.scan_maximal _ _ _

theorem paired_runs_in_comm (xLawful : x.Lawful) (yLawful : y.Lawful) (offset length : Nat) :
    pairedRunsIn y x offset length = pairedRunsIn x y offset length := by
  rw [paired_runs_in_eq_scan yLawful xLawful, paired_runs_in_eq_scan xLawful yLawful,
    paired_at_comm, Nat.min_comm y.length x.length]

theorem paired_runs_comm (xLawful : x.Lawful) (yLawful : y.Lawful) :
    pairedRuns y x = pairedRuns x y := by
  unfold pairedRuns
  rw [paired_runs_in_comm xLawful yLawful, Nat.min_comm y.length x.length]

theorem paired_runs_in_count (xLawful : x.Lawful) (yLawful : y.Lawful)
    (offset length index : Nat) :
    ((pairedRunsIn x y offset length).flatMap Run.slots).count index =
      if offset ≤ index ∧ index < min (offset + length) (min x.length y.length) ∧
        x.isValid index ∧ y.isValid index then 1 else 0 := by
  let stop := min (offset + length) (min x.length y.length)
  have once : ((List.range' offset (stop - offset)).filter (x.pairedAt y)).Nodup :=
    List.Nodup.filter _ List.nodup_range'
  have window : index ∈ List.range' offset (stop - offset) ↔ offset ≤ index ∧ index < stop := by
    rw [List.mem_range'_1]
    omega
  have visited : index ∈ (List.range' offset (stop - offset)).filter (x.pairedAt y) ↔
      offset ≤ index ∧ index < stop ∧ x.isValid index ∧ y.isValid index := by
    rw [List.mem_filter, window, pairedAt, Bool.and_eq_true, and_assoc]
  rw [paired_runs_in_slots xLawful yLawful, once.count]
  simp only [visited, stop]

/-- Whatever the lengths, the nulls and the window, the paired walk reports the maximal runs of
slots that both sequences hold, from the lowest to the highest. Each branch that it may take, and
the nested walk always, reports them; so do the operands in the other order. -/
theorem paired_walk_reports_maximal_runs (xLawful : x.Lawful) (yLawful : y.Lawful)
    (offset length : Nat) :
    let shorter := min x.length y.length
    let stop := min (offset + length) shorter
    let kept := min length (shorter - offset)
    let runs := pairedRunsIn x y offset length
    Run.AscendingMaximal (fun index => x.isValid index && y.isValid index) offset stop runs ∧
      Run.AscendingMaximal (fun index => x.isValid index && y.isValid index) 0 shorter
        (pairedRuns x y) ∧
      (y.nullCount = 0 → x.runsIn offset kept = runs) ∧
      (x.nullCount = 0 → y.runsIn offset kept = runs) ∧
      ((x.runsIn offset kept).flatMap fun run => y.runsIn run.start run.length) = runs ∧
      pairedRunsIn y x offset length = runs ∧
      pairedRuns y x = pairedRuns x y ∧
      ∀ index, (runs.flatMap Run.slots).count index =
        if offset ≤ index ∧ index < stop ∧ x.isValid index ∧ y.isValid index then 1 else 0 := by
  intro shorter stop kept runs
  have searched : runs = Run.scan (x.pairedAt y) offset stop :=
    paired_runs_in_eq_scan xLawful yLawful offset length
  refine ⟨paired_runs_in_maximal xLawful yLawful offset length, ?_, ?_, ?_, ?_,
    paired_runs_in_comm xLawful yLawful offset length, paired_runs_comm xLawful yLawful,
    paired_runs_in_count xLawful yLawful offset length⟩
  · have whole := paired_runs_in_maximal xLawful yLawful 0 shorter
    rwa [Nat.zero_add, Nat.min_self] at whole
  · intro yDense
    rw [searched]
    exact runs_in_of_dense xLawful yLawful yDense offset length
  · intro xDense
    rw [searched]
    exact runs_in_of_dense_first xLawful yLawful xDense offset length
  · rw [searched]
    exact nested_runs_in xLawful yLawful offset length

/-- Sequences of different lengths with nulls of their own, and a window that is too long. -/
theorem paired_walk_reports_maximal_runs_nested :
    let x : Sequence Int := .ofOptions #[some 1, some 2, some 3, none, some 5, some 6, some 7]
    let y : Sequence Int := .ofOptions #[some 1, none, some 3, some 4, some 5, some 6]
    x.Lawful ∧ y.Lawful ∧ pairedRunsIn x y 1 900 = [⟨2, 1⟩, ⟨4, 2⟩] ∧
      pairedRunsIn y x 1 900 = pairedRunsIn x y 1 900 := by
  intro x y
  have xLawful : x.Lawful := of_options_lawful _
  have yLawful : y.Lawful := of_options_lawful _
  exact ⟨xLawful, yLawful, by decide,
    (paired_walk_reports_maximal_runs xLawful yLawful 1 900).2.2.2.2.2.1⟩

end Comoment
