import Comoment.Bitmap.Runs
import Comoment.Proofs.MaximalRuns
import Comoment.Proofs.PackedBits

/-!
The walk over the runs of set bits, word by word. Looking for a bit shifts the word that holds the
first position, complemented when an unset bit is wanted, and counts the zeros below its lowest set
bit; a word without one is skipped as a whole. Words are read with a check that they exist,
positions are formed with a check that the machine has them, and the walk fails when it does not
get ahead. On a bitmap no check fails and the runs are the maximal ones.
-/

namespace Comoment

/-- The value, if it is a position of a machine with the given last position. -/
def positionUpTo (last value : Nat) : Option Nat := if value ≤ last then some value else none

theorem position_eq_some {last value : Nat} (bounded : value ≤ last) :
    positionUpTo last value = some value := if_pos bounded

namespace Word

/-- The bits from `index` on that are equal to `value`, as set bits from position zero on. -/
def seek (word : Word) (value : Bool) (index : Nat) : Word :=
  (if value then word else ~~~word) >>> index

theorem bit_seek (word : Word) (value : Bool) {index offset : Nat} (inside : index + offset < 64) :
    (word.seek value index).getLsbD offset = (word.getLsbD (index + offset) == value) := by
  cases value with
  | false => simp [seek, inside]
  | true => simp [seek]

theorem seek_bounded (word : Word) (value : Bool) {index : Nat}
    (sought : word.seek value index ≠ 0) : index + (word.seek value index).ctz.toNat < 64 := by
  apply Nat.lt_of_not_le
  intro past
  have set := BitVec.getLsbD_true_ctz_of_ne_zero sought
  rw [seek, BitVec.getLsbD_ushiftRight] at set
  exact Bool.false_ne_true ((BitVec.getLsbD_of_ge _ _ past).symm.trans set)

end Word

namespace PackedBits

def nextChecked (bits : PackedBits) (last : Nat) (value : Bool) (start stop : Nat) : Option Nat :=
  if start < stop then do
    let word ← bits.words[start / 64]?
    let sought := word.seek value (start % 64)
    if sought = 0 then do
      let _ ← positionUpTo last ((start / 64 + 1) * 64)
      bits.nextChecked last value ((start / 64 + 1) * 64) stop
    else do
      let found ← positionUpTo last (start + sought.ctz.toNat)
      return min found stop
  else some stop
termination_by stop - start
decreasing_by omega

def runsBetweenChecked (bits : PackedBits) (last start stop : Nat) : Option (List Run) :=
  if _inside : start < stop then do
    let first ← bits.nextChecked last true start stop
    if first < stop then do
      let ended ← bits.nextChecked last false first stop
      if _ahead : start ≤ first ∧ first < ended then do
        let rest ← bits.runsBetweenChecked last ended stop
        return ⟨first, ended - first⟩ :: rest
      else none
    else return []
  else some []
termination_by stop - start
decreasing_by omega

/-- The maximal runs of set bits in a window, whose end is the last position of the machine when it
lies past it. -/
def setRunsChecked (bits : PackedBits) (last offset length : Nat) : Option (List Run) :=
  bits.runsBetweenChecked last offset (min (min (offset + length) last) bits.length)

end PackedBits

namespace Bitmap

/-- The search ends at the only position that has a bit of the value, or is `stop`, and only bits
of the other value before it. -/
theorem next_eq_of_first (bitmap : Bitmap) (value : Bool) {start found stop : Nat}
    (lower : start ≤ found) (upper : found ≤ stop)
    (before : ∀ index, start ≤ index → index < found → bitOf bitmap.words index = !value)
    (here : found < stop → bitOf bitmap.words found = value) :
    bitmap.next value start stop = found := by
  apply Nat.le_antisymm
  · apply Nat.le_of_not_lt
    intro later
    have bounded := bitmap.next_le_stop value start stop
    have other := bitmap.bit_of_before_next value start stop lower later
    rw [here (by omega)] at other
    cases value <;> simp at other
  · apply Nat.le_of_not_lt
    intro earlier
    have first := bitmap.start_le_next value start stop (by omega)
    have same := bitmap.bit_of_next value start stop (by omega)
    rw [before _ first earlier] at same
    cases value <;> simp at same

theorem next_skip (bitmap : Bitmap) (value : Bool) {start middle stop : Nat}
    (inside : start < stop) (lower : start ≤ middle)
    (others : ∀ index, start ≤ index → index < middle → bitOf bitmap.words index = !value) :
    bitmap.next value start stop = bitmap.next value middle stop := by
  have upper := bitmap.next_le_stop value middle stop
  by_cases past : stop ≤ middle
  · have ended : bitmap.next value middle stop = stop := by
      rw [next, if_neg (by omega)]
    rw [ended]
    apply bitmap.next_eq_of_first value (Nat.le_of_lt inside) (Nat.le_refl _)
    · intro index low high
      exact others index low (by omega)
    · omega
  · have first := bitmap.start_le_next value middle stop (by omega)
    apply bitmap.next_eq_of_first value (by omega) upper
    · intro index low high
      by_cases skipped : index < middle
      · exact others index low skipped
      · exact bitmap.bit_of_before_next value middle stop (by omega) high
    · exact bitmap.bit_of_next value middle stop

section Word

variable (bitmap : Bitmap) (value : Bool) {word : Word} {start stop : Nat}
  (found : bitmap.words[start / 64]? = some word)

include found

theorem seek_bits {offset : Nat} (inside : start % 64 + offset < 64) :
    (word.seek value (start % 64)).getLsbD offset =
      (bitOf bitmap.words (start + offset) == value) := by
  have place : (start + offset) / 64 = start / 64 := by omega
  have rest : (start + offset) % 64 = start % 64 + offset := by omega
  rw [word.bit_seek value inside, bitOf, place, rest, Array.getD_eq_getD_getElem?, found,
    Option.getD_some]

theorem next_of_seek_zero (inside : start < stop) (zero : word.seek value (start % 64) = 0) :
    bitmap.next value start stop = bitmap.next value ((start / 64 + 1) * 64) stop := by
  apply bitmap.next_skip value inside (by omega)
  intro index lower upper
  have near : start % 64 + (index - start) < 64 := by omega
  have bit := bitmap.seek_bits value found near
  have same : start + (index - start) = index := by omega
  have unset : (0 : Word).getLsbD (index - start) = false := BitVec.getLsbD_zero
  rw [zero, unset, same] at bit
  cases value <;> simpa using bit.symm

/-- The zeros below the lowest set bit lead to the bit sought, which may lie past the window. -/
theorem next_of_seek (inside : start < stop) (sought : word.seek value (start % 64) ≠ 0) :
    bitmap.next value start stop =
      min (start + (word.seek value (start % 64)).ctz.toNat) stop := by
  have bounded := word.seek_bounded value sought
  apply bitmap.next_eq_of_first value (by omega) (Nat.min_le_right _ _)
  · intro index lower upper
    have near : start % 64 + (index - start) < 64 := by omega
    have bit := bitmap.seek_bits value found near
    have same : start + (index - start) = index := by omega
    rw [BitVec.getLsbD_false_of_lt_ctz (by omega), same] at bit
    cases value <;> simpa using bit.symm
  · intro reached
    have here : min (start + (word.seek value (start % 64)).ctz.toNat) stop =
        start + (word.seek value (start % 64)).ctz.toNat := by omega
    have bit := bitmap.seek_bits value found bounded
    rw [BitVec.getLsbD_true_ctz_of_ne_zero sought] at bit
    rw [here]
    exact eq_of_beq bit.symm

end Word

section Checked

variable (bitmap : Bitmap) {last : Nat} (addressed : 64 * bitmap.words.size ≤ last)

include addressed

theorem next_checked_eq (value : Bool) {start stop : Nat} (inside : stop ≤ bitmap.length) :
    bitmap.packed.nextChecked last value start stop = some (bitmap.next value start stop) := by
  have size := bitmap.size_words
  fun_induction PackedBits.nextChecked bitmap.packed last value start stop with
  | case1 start active ih =>
    obtain ⟨word, found⟩ := bitmap.word_exists (Nat.lt_of_lt_of_le active inside)
    have last_word : (start / 64 + 1) * 64 ≤ last := by omega
    change (bitmap.words[start / 64]?.bind _) = _
    rw [found, Option.bind_some]
    by_cases zero : word.seek value (start % 64) = 0
    · simp only [if_pos zero]
      rw [position_eq_some last_word, ih, bitmap.next_of_seek_zero value found active zero]
      rfl
    · have bounded := word.seek_bounded value zero
      simp only [if_neg zero]
      rw [position_eq_some (by omega), bitmap.next_of_seek value found active zero]
      rfl
  | case2 start ended => rw [next, if_neg ended]

/-- The walk gets ahead: the end of a run is looked for from its first bit, which is set. -/
theorem runs_between_checked_eq {start stop : Nat} (inside : stop ≤ bitmap.length) :
    bitmap.packed.runsBetweenChecked last start stop = some (bitmap.runsBetween start stop) := by
  fun_induction bitmap.runsBetween start stop with
  | case1 start first reached ended ih =>
    have active : start < stop := by
      apply Nat.lt_of_not_le
      intro outside
      simp only [first] at reached
      rw [next, if_neg (Nat.not_lt.mpr outside)] at reached
      omega
    have opened : bitOf bitmap.words first = true := bitmap.bit_of_next true start stop reached
    have lower : start ≤ first := bitmap.start_le_next true start stop (Nat.le_of_lt active)
    have further : first + 1 ≤ ended := bitmap.start_le_next false (first + 1) stop reached
    have skipped : bitmap.next false first stop = ended := by
      apply bitmap.next_skip false reached (Nat.le_succ first)
      intro index low high
      have same : index = first := by omega
      rw [same, opened]
      rfl
    rw [PackedBits.runsBetweenChecked, dif_pos active, bitmap.next_checked_eq addressed true inside]
    change (if first < stop then _ else _) = _
    rw [if_pos reached, bitmap.next_checked_eq addressed false inside, skipped]
    change (if _ : start ≤ first ∧ first < ended then _ else _) = _
    rw [dif_pos ⟨lower, further⟩, ih]
    rfl
  | case2 start first past =>
    rw [PackedBits.runsBetweenChecked]
    by_cases active : start < stop
    · rw [dif_pos active, bitmap.next_checked_eq addressed true inside]
      change (if first < stop then _ else _) = _
      rw [if_neg past]
      rfl
    · rw [dif_neg active]

theorem set_runs_checked_eq (offset length : Nat) :
    bitmap.packed.setRunsChecked last offset length = some (bitmap.setRuns offset length) := by
  have size := bitmap.size_words
  have stop : min (min (offset + length) last) bitmap.length =
      min (offset + length) bitmap.length := by omega
  change bitmap.packed.runsBetweenChecked last offset
    (min (min (offset + length) last) bitmap.length) = _
  rw [stop]
  exact bitmap.runs_between_checked_eq addressed (Nat.min_le_right _ _)

end Checked

/-- On a machine with whole words of positions the position after the last word is missing for the
highest 63 lengths alone. -/
theorem addressed_iff (bitmap : Bitmap) {last : Nat} (whole : (last + 1) % 64 = 0) :
    64 * bitmap.words.size ≤ last ↔ bitmap.length + 63 ≤ last := by
  have size := bitmap.size_words
  omega

theorem set_runs_maximal (bitmap : Bitmap) (offset length : Nat) :
    Run.AscendingMaximal bitmap.get offset (min (offset + length) bitmap.length)
      (bitmap.setRuns offset length) := by
  rw [set_runs_eq_scan]
  exact Run.scan_maximal _ _ _

theorem count_set_in_eq (bitmap : Bitmap) (offset length : Nat) :
    bitmap.countSetIn offset length =
      (List.range' offset (min (offset + length) bitmap.length - offset)).countP bitmap.get := by
  rw [countSetIn, set_runs_eq_scan, Run.total_length_eq, Run.slots_scan,
    List.countP_eq_length_filter]

theorem count_set_in_whole (bitmap : Bitmap) :
    bitmap.countSetIn 0 bitmap.length = bitmap.countSet := by
  rw [count_set_in_eq, Nat.zero_add, Nat.min_self, Nat.sub_zero, ← List.range_eq_range',
    count_set_eq]

end Bitmap

/-- The walk over a window of a bitmap reports the maximal runs of its set bits, wherever the
window begins and ends. Word by word it ends without reading a word that does not exist, on every
machine that has a position for each bit of the words and the one after them, also when the end of
the window is past the last position. With 64 bits these are all lengths up to the last 63, where
the position after the last word is not one. The lengths of the runs add up to the set bits of the
window. -/
theorem bitmap_walk_reports_maximal_runs (bitmap : Bitmap) (offset length : Nat) :
    let stop := min (offset + length) bitmap.length
    let runs := bitmap.setRuns offset length
    Run.AscendingMaximal bitmap.get offset stop runs ∧
      (∀ last, 64 * bitmap.words.size ≤ last →
        bitmap.packed.setRunsChecked last offset length = some runs) ∧
      (64 * bitmap.words.size ≤ 2 ^ 64 - 1 ↔ bitmap.length ≤ 2 ^ 64 - 64) ∧
      bitmap.countSetIn offset length =
        (List.range' offset (stop - offset)).countP bitmap.get ∧
      bitmap.countSetIn 0 bitmap.length = bitmap.countSet := by
  intro stop runs
  exact ⟨bitmap.set_runs_maximal offset length,
    fun last addressed => bitmap.set_runs_checked_eq addressed offset length,
    (bitmap.addressed_iff (by decide)).trans (by omega),
    bitmap.count_set_in_eq offset length, bitmap.count_set_in_whole⟩

/-- Runs over several words, in a window that begins within one and ends past the last position of
a machine with 64 bit positions. -/
theorem bitmap_walk_reports_maximal_runs_saturating :
    let bitmap := ((Bitmap.replicate 200 true).set 70 false).set 150 false
    64 * bitmap.words.size ≤ 2 ^ 64 - 1 ∧
      bitmap.packed.setRunsChecked (2 ^ 64 - 1) 60 (2 ^ 64 - 1) =
        some [⟨60, 10⟩, ⟨71, 79⟩, ⟨151, 49⟩] := by
  intro bitmap
  have addressed : 64 * bitmap.words.size ≤ 2 ^ 64 - 1 := by decide +kernel
  have walked := (bitmap_walk_reports_maximal_runs bitmap 60 (2 ^ 64 - 1)).2.1 _ addressed
  refine ⟨addressed, ?_⟩
  rw [walked, bitmap.set_runs_eq_scan]
  decide +kernel

/-- With 128 positions the search leaves the second word of 100 bits for a position that is missing,
and that 64 bits do not need. -/
example : (Bitmap.replicate 100 false).packed.setRunsChecked 127 0 100 = none ∧
    (Bitmap.replicate 64 false).packed.setRunsChecked 127 0 64 = some [] := by
  decide +kernel

end Comoment
