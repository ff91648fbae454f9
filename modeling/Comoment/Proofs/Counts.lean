import Comoment.Proofs.Strategies

/-!
Counts without arithmetic. Whatever the scalars are, the moments of two sequences count the slots
in which both hold a value, and they are the empty moments when there is none.
-/

namespace Comoment

variable {ε α : Type}

namespace Sequence

def pairCount (x y : Sequence ε) : Nat :=
  (List.range (min x.length y.length)).countP (pairedAt x y)

theorem pairs_length [Inhabited ε] {x y : Sequence ε} (xLawful : x.Lawful) (yLawful : y.Lawful) :
    (x.pairs y).length = x.pairCount y := by
  unfold pairs pairCount
  rw [filter_map_pair_at xLawful yLawful, List.length_map, List.countP_eq_length_filter]

end Sequence

variable [Scalar α]

namespace Moments

/-- The count is not negative, and when it is zero the moments are the empty ones. -/
structure Canonical (moments : Moments α) : Prop where
  count_nonneg : 0 ≤ moments.count
  of_no_pairs : moments.count = 0 → moments = empty

theorem empty_canonical : (empty : Moments α).Canonical := ⟨Int.le_refl 0, fun _ => rfl⟩

theorem canonical_of_some {moments : Moments α} (some : 0 < moments.count) : moments.Canonical :=
  ⟨some.le, fun none => absurd none some.ne'⟩

theorem merge_empty (moments : Moments α) : moments.merge empty = moments := rfl

/-- On the left the empty moments are neutral for canonical ones, as moments without a pair are
never copied. -/
theorem empty_merge {moments : Moments α} (canonical : moments.Canonical) :
    empty.merge moments = moments := by
  have unused : (empty : Moments α).count = 0 := rfl
  unfold merge
  by_cases none : moments.count = 0
  · rw [if_pos none, canonical.of_no_pairs none]
  · rw [if_neg none, if_pos unused]

theorem Canonical.merge {first second : Moments α} (firstCanonical : first.Canonical)
    (secondCanonical : second.Canonical) : (first.merge second).Canonical := by
  have firstCount := firstCanonical.count_nonneg
  have secondCount := secondCanonical.count_nonneg
  have count := merge_count first second
  refine ⟨by omega, ?_⟩
  intro none
  rw [firstCanonical.of_no_pairs (by omega), secondCanonical.of_no_pairs (by omega), merge_empty]

section Strategies

variable [Inhabited ε] {x y : Sequence ε} (xLawful : x.Lawful) (yLawful : y.Lawful)

include xLawful yLawful

theorem two_pass_count (toScalar : ε → α) :
    (twoPass toScalar x y).count = (x.pairs y).length := by
  unfold twoPass
  simp only [paired_runs_total xLawful yLawful]
  split
  · rename_i none
    rw [none]
    rfl
  · rfl

theorem two_pass_of_no_pairs (toScalar : ε → α) (none : x.pairs y = []) :
    twoPass toScalar x y = empty := by
  have count := paired_runs_total xLawful yLawful
  rw [none, List.length_nil] at count
  unfold twoPass
  simp only [count, if_true]

theorem merge_window_count (toInt : ε → Int) (moments : Moments α) (window : Run) :
    (mergeWindow toInt x y moments window).count =
      moments.count + (window.slots.filterMap (x.pairAt? y)).length := by
  unfold mergeWindow
  simp only
  rw [ExactSums.of_runs_eq xLawful yLawful]
  split
  · rename_i none
    simp only [ExactSums.ofPairs, List.length_map] at none
    simp [none]
  · rw [merge_count, of_sums_count]
    simp [ExactSums.ofPairs]

theorem merge_window_of_no_pairs (toInt : ε → Int) (moments : Moments α) {window : Run}
    (none : window.slots.filterMap (x.pairAt? y) = []) :
    mergeWindow toInt x y moments window = moments := by
  unfold mergeWindow
  simp only
  rw [ExactSums.of_runs_eq xLawful yLawful, none]
  rfl

theorem exact_count (toInt : ε → Int) (bound : Nat) :
    (exact toInt bound x y : Moments α).count = (x.pairs y).length := by
  apply exact_induction toInt bound x y
    (motive := fun moments pairs => moments.count = pairs.length)
  · rfl
  · intro moments pairs window counted
    rw [merge_window_count xLawful yLawful, counted, List.length_append, Nat.cast_add]

theorem exact_of_no_pairs (toInt : ε → Int) (bound : Nat) (none : x.pairs y = []) :
    (exact toInt bound x y : Moments α) = empty := by
  revert none
  apply exact_induction toInt bound x y
    (motive := fun moments pairs => pairs = [] → moments = empty)
  · intro _
    rfl
  · intro moments pairs window unchanged absent
    rw [List.append_eq_nil_iff] at absent
    rw [merge_window_of_no_pairs xLawful yLawful toInt moments absent.2, unchanged absent.1]

end Strategies

end Moments

namespace Element

variable [Element ε] {x y : Sequence ε} (xLawful : x.Lawful) (yLawful : y.Lawful)

include xLawful yLawful

theorem moments_count (scale : Int) :
    (moments scale x y : Moments α).count = x.pairCount y := by
  rw [← Sequence.pairs_length xLawful yLawful]
  unfold moments
  cases reading (ε := ε) with
  | narrow bitWidth toInt narrow sizes => exact Moments.exact_count xLawful yLawful toInt _
  | wide quantity => exact Moments.two_pass_count xLawful yLawful _

theorem moments_of_no_pairs (scale : Int) (none : x.pairCount y = 0) :
    (moments scale x y : Moments α) = Moments.empty := by
  rw [← Sequence.pairs_length xLawful yLawful, List.length_eq_zero_iff] at none
  unfold moments
  cases reading (ε := ε) with
  | narrow bitWidth toInt narrow sizes =>
    exact Moments.exact_of_no_pairs xLawful yLawful toInt _ none
  | wide quantity => exact Moments.two_pass_of_no_pairs xLawful yLawful _ none

theorem moments_canonical (scale : Int) : (moments scale x y : Moments α).Canonical := by
  have count := moments_count (α := α) xLawful yLawful scale
  refine ⟨by omega, ?_⟩
  intro none
  exact moments_of_no_pairs xLawful yLawful scale (by omega)

end Element

end Comoment
