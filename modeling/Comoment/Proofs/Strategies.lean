import Comoment.Moments.Exact
import Comoment.Proofs.Chunks
import Comoment.Proofs.Moments
import Comoment.Proofs.Summation
import Mathlib.Algebra.BigOperators.Ring.Finset

/-!
Both accumulations compute the moments of the pairs. The two traversals do so because their sums
are exact, the integer sums because quotient and remainder of the product of sums add up to it, and
the chunks because their windows cut the slots into consecutive pieces.
-/

namespace Comoment

variable {ε : Type}

def numbers (toRat : ε → ℚ) (pairs : List (ε × ε)) : Multiset (ℚ × ℚ) :=
  pairs.map fun pair => (toRat pair.1, toRat pair.2)

theorem numbers_append (toRat : ε → ℚ) (first second : List (ε × ε)) :
    numbers toRat (first ++ second) = numbers toRat first + numbers toRat second := by
  simp [numbers]

namespace ExactSums

def ofPairs (pairs : List (Int × Int)) : ExactSums where
  count := pairs.length
  sumX := (pairs.map Prod.fst).sum
  sumY := (pairs.map Prod.snd).sum
  sumXY := (pairs.map fun pair => pair.1 * pair.2).sum

theorem of_pairs_concat (pairs : List (Int × Int)) (pair : Int × Int) :
    ofPairs (pairs ++ [pair]) = (ofPairs pairs).add pair.1 pair.2 := by
  simp [ofPairs, add]

theorem foldl_add_eq (first second : List (Int × Int)) :
    second.foldl (fun sums pair => sums.add pair.1 pair.2) (ofPairs first) =
      ofPairs (first ++ second) := by
  induction second generalizing first with
  | nil => simp
  | cons pair second ih =>
    rw [List.foldl_cons, ← of_pairs_concat, ih, List.append_assoc]
    rfl

variable [Inhabited ε]

theorem of_runs_eq {x y : Sequence ε} (xLawful : x.Lawful) (yLawful : y.Lawful)
    (toInt : ε → Int) (window : Run) :
    ofRuns toInt x y (pairedRunsIn x y window.start window.length) =
      ofPairs ((window.slots.filterMap (x.pairAt? y)).map fun pair =>
        (toInt pair.1, toInt pair.2)) := by
  have values := paired_runs_in_values xLawful yLawful window.start window.length
  have folded := foldl_add_eq [] ((window.slots.filterMap (x.pairAt? y)).map fun pair =>
    (toInt pair.1, toInt pair.2))
  rw [List.nil_append] at folded
  rw [← folded, Run.slots, ← values, List.foldl_map, List.foldl_map]
  rfl

/-- Quotient and remainder make up the product of the sums divided by the count. -/
theorem comoment_eq (sums : ExactSums) (positive : sums.count ≠ 0) :
    (sums.comoment : ℚ) = sums.sumXY - sums.sumX * sums.sumY / sums.count := by
  have divided : ((sums.sumX * sums.sumY : Int) : ℚ) =
      (sums.quotient * sums.count + sums.remainder : Int) := by
    rw [quotient, remainder, Int.tdiv_mul_add_tmod]
  push_cast at divided
  have nonzero : (sums.count : ℚ) ≠ 0 := by exact_mod_cast positive
  unfold comoment
  rw [if_neg positive, divided]
  simp only [Scalar.of_int_rat, Int.cast_sub, Int.cast_natCast]
  field_simp
  ring

theorem cast_sum_eq (pairs : List (Int × Int)) (term : Int × Int → Int) (toRat : ℚ × ℚ → ℚ)
    (agrees : ∀ pair, (term pair : ℚ) = toRat (pair.1, pair.2)) :
    ((pairs.map term).sum : ℚ) = ((numbers Int.cast pairs).map toRat).sum := by
  simp [numbers, Int.cast_list_sum, Function.comp_def, agrees]

theorem of_pairs_moments (pairs : List (Int × Int)) :
    ((ofPairs pairs).moments : Moments ℚ) = Moments.ofPairs (numbers Int.cast pairs) := by
  unfold moments
  split
  · rename_i empty
    rw [List.length_eq_zero_iff.mp empty]
    exact Moments.of_pairs_zero.symm
  · rename_i positive
    have sumX := cast_sum_eq pairs Prod.fst Prod.fst fun _ => rfl
    have sumY := cast_sum_eq pairs Prod.snd Prod.snd fun _ => rfl
    have sumXY := cast_sum_eq pairs (fun pair => pair.1 * pair.2) (fun pair => pair.1 * pair.2)
      fun pair => Int.cast_mul pair.1 pair.2
    have count : (ofPairs pairs).count = (numbers Int.cast pairs).card := by
      simp [ofPairs, numbers]
    apply Moments.ext
    · exact congrArg Int.ofNat count
    · simp only [meanX, Scalar.of_int_rat, Moments.ofPairs, mean, Multiset.card_map, ← sumX,
        ← count]
      rfl
    · simp only [meanY, Scalar.of_int_rat, Moments.ofPairs, mean, Multiset.card_map, ← sumY,
        ← count]
      rfl
    · rw [comoment_eq _ positive, Moments.of_pairs_comoment, ← sumX, ← sumY, ← sumXY, ← count]
      rfl

end ExactSums

namespace Moments

variable [Inhabited ε]

theorem two_pass_eq {x y : Sequence ε} (xLawful : x.Lawful) (yLawful : y.Lawful)
    (toRat : ε → ℚ) : twoPass toRat x y = ofPairs (numbers toRat (x.pairs y)) := by
  unfold twoPass
  simp only [paired_runs_total xLawful yLawful]
  split
  · rename_i empty
    rw [List.length_eq_zero_iff.mp empty]
    exact of_pairs_zero.symm
  · have meanX : sumPaired x y (fun a _ => toRat a) / (Scalar.ofInt (x.pairs y).length : ℚ) =
        mean ((numbers toRat (x.pairs y)).map Prod.fst) := by
      rw [sum_paired_eq xLawful yLawful]
      simp [mean, numbers, Scalar.of_int_rat, Function.comp_def]
    have meanY : sumPaired x y (fun _ b => toRat b) / (Scalar.ofInt (x.pairs y).length : ℚ) =
        mean ((numbers toRat (x.pairs y)).map Prod.snd) := by
      rw [sum_paired_eq xLawful yLawful]
      simp [mean, numbers, Scalar.of_int_rat, Function.comp_def]
    rw [meanX, meanY]
    apply Moments.ext
    · simp [ofPairs, numbers]
    · rfl
    · rfl
    · simp only [ofPairs, deviationProducts]
      rw [sum_paired_eq xLawful yLawful]
      simp [numbers, Function.comp_def]

theorem merge_window_of_pairs {x y : Sequence ε} (xLawful : x.Lawful) (yLawful : y.Lawful)
    (toInt : ε → Int) (absorbed : Multiset (ℚ × ℚ)) (window : Run) :
    mergeWindow toInt x y (ofPairs absorbed) window =
      ofPairs (absorbed +
        numbers (fun value => toInt value) (window.slots.filterMap (x.pairAt? y))) := by
  let pairs := (window.slots.filterMap (x.pairAt? y)).map fun pair => (toInt pair.1, toInt pair.2)
  have converted : numbers Int.cast pairs =
      numbers (fun value => (toInt value : ℚ)) (window.slots.filterMap (x.pairAt? y)) := by
    simp [numbers, pairs, Function.comp_def]
  unfold mergeWindow
  simp only
  rw [ExactSums.of_runs_eq xLawful yLawful, ExactSums.of_pairs_moments, merge_of_pairs, converted]
  split
  · rename_i empty
    have none : pairs = [] := List.length_eq_zero_iff.mp empty
    rw [← converted, none]
    simp [numbers]
  · rfl

/-- The chunks merge to the moments of all pairs, whatever their bound. -/
theorem exact_eq {x y : Sequence ε} (xLawful : x.Lawful) (yLawful : y.Lawful)
    (toInt : ε → Int) (bound : Nat) :
    exact toInt bound x y = ofPairs (numbers (fun value => toInt value) (x.pairs y)) := by
  apply exact_induction toInt bound x y
    (motive := fun moments pairs => moments = ofPairs (numbers (fun value => toInt value) pairs))
  · exact of_pairs_zero.symm
  · rintro _ pairs window rfl
    rw [merge_window_of_pairs xLawful yLawful, numbers_append]

end Moments

theorem Element.moments_eq [Element ε] {x y : Sequence ε} (xLawful : x.Lawful)
    (yLawful : y.Lawful) (scale : Int) :
    (Element.moments scale x y : Moments ℚ) =
      Moments.ofPairs (numbers (Element.exact scale) (x.pairs y)) := by
  unfold Element.moments Element.exact
  cases Element.reading (ε := ε) with
  | narrow bitWidth toInt narrow sizes => exact Moments.exact_eq xLawful yLawful toInt _
  | wide quantity =>
    simp only [Element.quantity_to_scalar]
    exact Moments.two_pass_eq xLawful yLawful _

variable [Inhabited ε]

/-- For every bound of the chunks, the exact accumulation has the result of the two traversals:
the moments of the pairs, and of no pairs when there are none. Its chunks consume every paired
slot once, in order. -/
theorem exact_eq_two_pass {x y : Sequence ε} (xLawful : x.Lawful) (yLawful : y.Lawful)
    (toInt : ε → Int) (bound : Nat) :
    Moments.exact toInt bound x y =
        Moments.twoPass (fun value => (Scalar.ofInt (toInt value) : ℚ)) x y ∧
      Moments.exact toInt bound x y =
        Moments.ofPairs (numbers (fun value => toInt value) (x.pairs y)) ∧
      (x.pairs y = [] → Moments.exact toInt bound x y = (Moments.empty : Moments ℚ)) ∧
      (Moments.exact toInt bound x y : Moments ℚ) =
        (chunkWindows bound 0 (min x.length y.length)).foldl (Moments.mergeWindow toInt x y)
          Moments.empty ∧
      (chunkWindows bound 0 (min x.length y.length)).flatMap
          (fun window => (pairedRunsIn x y window.start window.length).flatMap Run.slots) =
        (List.range (min x.length y.length)).filter (x.pairedAt y) := by
  have whole := Moments.exact_eq xLawful yLawful toInt bound
  refine ⟨?_, whole, ?_, Moments.exact_eq_foldl toInt bound x y,
    chunk_windows_paired xLawful yLawful bound⟩
  · rw [whole, Moments.two_pass_eq xLawful yLawful]
    rfl
  · intro none
    rw [whole, none]
    exact Moments.of_pairs_zero

theorem exact_two_pass_short_chunks :
    let x := Sequence.ofOptions #[some (3 : Int8), none, some (-7), some 2, some 5]
    let y := Sequence.ofOptions #[some (1 : Int8), some 4, some (-2), none]
    x.Lawful ∧ y.Lawful ∧ Moments.exact Int8.toInt 2 x y = (⟨2, -2, -1 / 2, 15⟩ : Moments ℚ) := by
  intro x y
  have xLawful : x.Lawful := Sequence.of_options_lawful _
  have yLawful : y.Lawful := Sequence.of_options_lawful _
  have pairs : x.pairs y = [(3, 1), (-7, -2)] := by decide
  have moments := (exact_eq_two_pass xLawful yLawful Int8.toInt 2).2.1
  rw [pairs] at moments
  refine ⟨xLawful, yLawful, moments.trans ?_⟩
  apply Moments.ext <;> simp [Moments.ofPairs, numbers, mean, deviationProducts] <;> norm_num

end Comoment
