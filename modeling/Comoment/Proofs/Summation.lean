import Comoment.Proofs.Pairing
import Comoment.Proofs.SummationTree
import Mathlib.Algebra.BigOperators.Group.List.Basic
import Mathlib.Data.List.ReduceOption

/-!
Pairwise summation without rounding. Where addition is associative and zeros do not count, a tree of
additions has the value of its terms added one after the other, and so the sum over the paired
slots is the sum over the list of pairs.
-/

namespace Comoment

variable {M : Type} [AddMonoid M]

theorem SumTree.eval_eq_sum (tree : SumTree) (value : Nat → M) :
    tree.eval value = (tree.terms.map value).sum := by
  induction tree with
  | zero => rfl
  | term slot => simp [eval, terms]
  | add left right leftSum rightSum =>
    rw [terms, List.map_append, List.sum_append, ← leftSum, ← rightSum]
    rfl

theorem sum_runs_eq (runs : List Run) (term : Nat → M) :
    sumRuns runs term = ((runs.flatMap Run.slots).map term).sum := by
  rw [sum_runs_eq_eval, SumTree.eval_eq_sum, SumTree.terms_of_runs]

namespace Sequence.Lawful

variable {ε : Type} {values : Sequence ε}

theorem runs_slots (lawful : values.Lawful) :
    values.runs.flatMap Run.slots = (List.range values.length).filter values.isValid := by
  rw [runs, lawful.runs_scan, Run.slots_scan, Nat.zero_add, Nat.min_self, Nat.sub_zero,
    ← List.range_eq_range']

theorem valid_values [Inhabited ε] (lawful : values.Lawful) :
    values.toOptions.reduceOption =
      ((List.range values.length).filter values.isValid).map values.value := by
  rw [toOptions, List.reduceOption, List.filterMap_map]
  exact filter_map_eq_map_filter lawful.get_eq _

end Sequence.Lawful

theorem sum_valid_eq {ε : Type} [Inhabited ε] {values : Sequence ε} (lawful : values.Lawful)
    (term : ε → M) : sumValid values term = (values.toOptions.reduceOption.map term).sum := by
  rw [sumValid, sum_runs_eq, lawful.runs_slots, lawful.valid_values, List.map_map]
  rfl

theorem sum_paired_eq {ε δ : Type} [Inhabited ε] [Inhabited δ] {x : Sequence ε} {y : Sequence δ}
    (xLawful : x.Lawful) (yLawful : y.Lawful) (term : ε → δ → M) :
    sumPaired x y term = ((x.pairs y).map fun pair => term pair.1 pair.2).sum := by
  have values := paired_runs_in_values xLawful yLawful 0 (min x.length y.length)
  rw [← List.range_eq_range'] at values
  rw [sumPaired, sum_runs_eq, Sequence.pairs, ← values, List.map_map]
  rfl

end Comoment
