import Comoment.Bitmap.Basic

/-!
Bitmaps seen as lists of bits. Reading commutes with every operation, so that a bitmap is
determined by its list and the operations are those on lists.
-/

namespace Comoment.Bitmap

theorem get_past_end (bitmap : Bitmap) {index : Nat} (past : bitmap.length ≤ index) :
    bitmap.get index = false := by
  simp [get, Nat.not_lt.mpr past]

theorem get_eq_bit_of (bitmap : Bitmap) (index : Nat) :
    bitmap.get index = bitOf bitmap.words index := by
  unfold get
  split
  · rfl
  · rw [bitmap.tail_clear index (by omega)]

theorem get_set (bitmap : Bitmap) (index : Nat) (value : Bool) (other : Nat) :
    (bitmap.set index value).get other =
      if other = index ∧ index < bitmap.length then value else bitmap.get other := by
  simp only [get_eq_bit_of, set]
  split
  · rename_i inside
    have bound : index / 64 < bitmap.words.size := by rw [bitmap.size_words]; omega
    simp [bit_of_write_bit _ bound, inside]
  · rename_i outside
    simp [outside]

theorem get_push (bitmap : Bitmap) (value : Bool) (index : Nat) :
    (bitmap.push value).get index = if index = bitmap.length then value else bitmap.get index := by
  simp only [get_eq_bit_of, push]
  have size := bitmap.size_words
  split
  · rw [bit_of_write_bit _ (by rw [Array.size_push]; omega), bit_of_push_zero]
  · rw [bit_of_write_bit _ (by omega)]

theorem get_push_many (bitmap : Bitmap) (value : Bool) (count index : Nat) :
    (bitmap.pushMany value count).get index =
      if bitmap.length ≤ index ∧ index < bitmap.length + count then value
      else bitmap.get index := by
  induction count generalizing bitmap with
  | zero => simp only [pushMany]; rw [if_neg (by omega)]
  | succ count ih =>
    rw [pushMany, ih, push_length, get_push]
    grind

theorem get_append_clear (bitmap : Bitmap) (count index : Nat) :
    (bitmap.appendClear count).get index = bitmap.get index := by
  simp only [get_eq_bit_of, appendClear, bit_of_append_replicate]
  split
  · rfl
  · rename_i past
    have clear := bitmap.tail_clear index (by have := bitmap.size_words; omega)
    simp [clear]

theorem get_append_full_words (bitmap : Bitmap) (aligned : bitmap.length % 64 = 0)
    (count index : Nat) :
    (bitmap.appendFullWords aligned count).get index =
      if bitmap.length ≤ index ∧ index < bitmap.length + 64 * count then true
      else bitmap.get index := by
  have size := bitmap.size_words
  simp only [get_eq_bit_of, appendFullWords, bit_of_append_replicate, BitVec.getLsbD_allOnes]
  by_cases below : index < bitmap.length
  · rw [if_pos (by omega), if_neg (by omega)]
  · rw [if_neg (by omega)]
    by_cases inside : index < bitmap.length + 64 * count
    · rw [if_pos (by omega), if_pos (by omega)]
      simp [Nat.mod_lt]
    · rw [if_neg (by omega), if_neg (by omega), bitmap.tail_clear index (by omega)]

theorem get_extend (bitmap : Bitmap) (count : Nat) (value : Bool) (index : Nat) :
    (bitmap.extend count value).get index =
      if bitmap.length ≤ index ∧ index < bitmap.length + count then value
      else bitmap.get index := by
  cases value with
  | false =>
    simp only [extend, Bool.false_eq_true, if_false, get_append_clear]
    split
    · exact get_past_end bitmap (by omega)
    · rfl
  | true =>
    simp only [extend, if_true, appendSet]
    split
    · exact get_push_many bitmap true count index
    · rw [get_push_many, get_append_full_words, get_push_many]
      simp only [appendFullWords, push_many_length]
      grind

theorem extend_length (bitmap : Bitmap) (count : Nat) (value : Bool) :
    (bitmap.extend count value).length = bitmap.length + count := by
  cases value with
  | false => rfl
  | true =>
    simp only [extend, if_true, appendSet]
    split
    · exact push_many_length _ _ _
    · simp only [push_many_length, appendFullWords]
      omega

theorem set_length (bitmap : Bitmap) (index : Nat) (value : Bool) :
    (bitmap.set index value).length = bitmap.length := by
  unfold set
  split <;> rfl

theorem to_list_length (bitmap : Bitmap) : bitmap.toList.length = bitmap.length := by
  simp [toList]

theorem to_list_get? (bitmap : Bitmap) (index : Nat) :
    bitmap.toList[index]? =
      if index < bitmap.length then some (bitmap.get index) else none := by
  simp only [toList, List.getElem?_map]
  split
  · rename_i inside
    simp [List.getElem?_range inside]
  · rename_i outside
    simp [List.getElem?_eq_none (l := List.range bitmap.length) (by simpa using outside)]

theorem to_list_push (bitmap : Bitmap) (value : Bool) :
    (bitmap.push value).toList = bitmap.toList ++ [value] := by
  apply List.ext_getElem?
  intro index
  rw [to_list_get?, List.getElem?_append, to_list_get?, to_list_length, push_length, get_push]
  grind

theorem to_list_set (bitmap : Bitmap) (index : Nat) (value : Bool) :
    (bitmap.set index value).toList = bitmap.toList.set index value := by
  apply List.ext_getElem?
  intro other
  rw [to_list_get?, List.getElem?_set, to_list_get?, to_list_length, set_length, get_set]
  grind

theorem to_list_extend (bitmap : Bitmap) (count : Nat) (value : Bool) :
    (bitmap.extend count value).toList = bitmap.toList ++ List.replicate count value := by
  apply List.ext_getElem?
  intro index
  rw [to_list_get?, List.getElem?_append, to_list_get?, to_list_length, extend_length, get_extend,
    List.getElem?_replicate]
  grind

/-- Equal lists of bits are equal bitmaps, word for word. -/
theorem eq_of_to_list_eq {first second : Bitmap} (same : first.toList = second.toList) :
    first = second := by
  have lengths : first.length = second.length := by
    rw [← to_list_length, same, to_list_length]
  have reads : ∀ index, first.get index = second.get index := by
    intro index
    by_cases inside : index < first.length
    · have left := to_list_get? first index
      have right := to_list_get? second index
      rw [same] at left
      rw [if_pos inside] at left
      rw [if_pos (lengths ▸ inside)] at right
      exact Option.some.inj (left.symm.trans right)
    · rw [get_past_end first (by omega), get_past_end second (by omega)]
  have sizes : first.words.size = second.words.size := by
    rw [first.size_words, second.size_words, lengths]
  have words : first.words = second.words := by
    apply Array.ext sizes
    intro position left right
    apply BitVec.eq_of_getLsbD_eq
    intro offset bound
    have read := reads (64 * position + offset)
    have place : (64 * position + offset) / 64 = position := by omega
    have rest : (64 * position + offset) % 64 = offset := by omega
    simpa [get_eq_bit_of, bitOf, place, rest, Array.getD_eq_getD_getElem?, left, right] using read
  cases first
  cases second
  simp_all

end Comoment.Bitmap
