import Comoment.Bitmap.View
import Mathlib.Data.List.GetD
import Mathlib.Data.List.Induction

/-!
Counting set bits. A word is counted as a whole, and because the words hold no set bit past the
length, the counts of all words add up to the set bits of the list.
-/

namespace Comoment

theorem Word.cpop_nat_rec_eq_count (word : Word) (width counted : Nat) :
    word.cpopNatRec width counted = counted + (List.range width).countP word.getLsbD := by
  induction width generalizing counted with
  | zero => simp
  | succ width ih =>
    rw [BitVec.cpopNatRec_succ, ih, List.range_succ, List.countP_append, List.countP_singleton]
    cases word.getLsbD width with
    | false => simp
    | true => simp only [Bool.toNat_true, if_true]; omega

theorem Word.cpop_eq_count (word : Word) :
    word.cpop.toNat = (List.range 64).countP word.getLsbD := by
  rw [BitVec.toNat_cpop, cpop_nat_rec_eq_count, Nat.zero_add]

namespace Bitmap

theorem fold_cpop_eq_count (words : List Word) :
    words.foldl (fun total word => total + word.cpop.toNat) 0 =
      (List.range (64 * words.length)).countP fun index =>
        (words.getD (index / 64) 0).getLsbD (index % 64) := by
  -- the count runs from the left, so the last word is the step
  induction words using List.reverseRecOn with
  | nil => rfl
  | append_singleton words word ih =>
    have positions : List.range (64 * (words ++ [word]).length) =
        List.range (64 * words.length) ++ (List.range 64).map (64 * words.length + ·) := by
      rw [List.length_append, List.length_singleton, Nat.mul_add, List.range_add]
    have earlier : ∀ index ∈ List.range (64 * words.length),
        (words ++ [word]).getD (index / 64) 0 = words.getD (index / 64) 0 := by
      intro index found
      rw [List.mem_range] at found
      exact List.getD_append _ _ _ _ (by omega)
    have last : ∀ index ∈ List.range 64,
        ((words ++ [word]).getD ((64 * words.length + index) / 64) 0).getLsbD
          ((64 * words.length + index) % 64) = word.getLsbD index := by
      intro index found
      rw [List.mem_range] at found
      have place : (64 * words.length + index) / 64 = words.length := by omega
      have rest : (64 * words.length + index) % 64 = index := by omega
      rw [place, rest, List.getD_append_right _ _ _ _ (Nat.le_refl _)]
      simp
    rw [List.foldl_append, ih, List.foldl_cons, List.foldl_nil, Word.cpop_eq_count, positions,
      List.countP_append, List.countP_map]
    congr 1
    · apply List.countP_congr
      intro index found
      rw [earlier index found]
    · apply List.countP_congr
      intro index found
      rw [Function.comp_apply, last index found]

theorem count_set_eq (bitmap : Bitmap) :
    bitmap.countSet = (List.range bitmap.length).countP bitmap.get := by
  have size := bitmap.size_words
  have positions : List.range (64 * bitmap.words.size) =
      List.range bitmap.length ++
        (List.range (64 * bitmap.words.size - bitmap.length)).map (bitmap.length + ·) := by
    rw [← List.range_add]
    congr 1
    omega
  have tail : (List.range (64 * bitmap.words.size - bitmap.length)).countP
      (bitmap.get ∘ (bitmap.length + ·)) = 0 := by
    apply List.countP_eq_zero.mpr
    intro index _
    simp [bitmap.get_past_end (Nat.le_add_right _ index)]
  have reads : (fun index => (bitmap.words.toList.getD (index / 64) 0).getLsbD (index % 64)) =
      bitmap.get := by
    funext index
    rw [get_eq_bit_of, bitOf]
    simp
  rw [countSet, ← Array.foldl_toList, fold_cpop_eq_count, Array.length_toList, reads, positions,
    List.countP_append, List.countP_map, tail, Nat.add_zero]

end Bitmap

end Comoment
