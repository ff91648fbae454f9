import Comoment.Bitmap.View
import Comoment.Run

/-!
Runs of set bits in a window of a bitmap. The walk jumps over words that hold no bit of the value
it looks for, and probes single bits in the others. It finds the runs of the search bit by bit.
-/

namespace Comoment

def Word.uniform (value : Bool) : Word := if value then BitVec.allOnes 64 else 0

theorem Word.bit_uniform (value : Bool) {index : Nat} (bound : index < 64) :
    (Word.uniform value).getLsbD index = value := by
  cases value with
  | false => exact BitVec.getLsbD_zero
  | true =>
    rw [uniform, if_pos rfl, BitVec.getLsbD_allOnes]
    exact decide_eq_true bound

namespace Bitmap

/-- The first position among `start`, …, `stop - 1` whose bit is `value`, or else `stop`. -/
def next (bitmap : Bitmap) (value : Bool) (start stop : Nat) : Nat :=
  if start < stop then
    if bitmap.words.getD (start / 64) 0 = Word.uniform (!value) then
      bitmap.next value ((start / 64 + 1) * 64) stop
    else if bitOf bitmap.words start = value then start
    else bitmap.next value (start + 1) stop
  else stop
termination_by stop - start
decreasing_by all_goals omega

theorem start_le_next (bitmap : Bitmap) (value : Bool) (start stop : Nat)
    (ordered : start ≤ stop) : start ≤ bitmap.next value start stop := by
  fun_induction next bitmap value start stop with
  | case1 start inside uniform ih =>
    by_cases ended : stop ≤ (start / 64 + 1) * 64
    · rw [next, if_neg (by omega)]
      exact ordered
    · have := ih (by omega)
      omega
  | case2 => exact Nat.le_refl _
  | case3 start inside _ _ ih =>
    have := ih (by omega)
    omega
  | case4 => exact ordered

theorem next_le_stop (bitmap : Bitmap) (value : Bool) (start stop : Nat) :
    bitmap.next value start stop ≤ stop := by
  fun_induction next bitmap value start stop with
  | case1 _ _ _ ih => exact ih
  | case2 => omega
  | case3 _ _ _ _ ih => exact ih
  | case4 => exact Nat.le_refl _

theorem bit_of_before_next (bitmap : Bitmap) (value : Bool) (start stop : Nat) {index : Nat}
    (lower : start ≤ index) (upper : index < bitmap.next value start stop) :
    bitOf bitmap.words index = !value := by
  fun_induction next bitmap value start stop with
  | case1 start inside uniform ih =>
    by_cases later : (start / 64 + 1) * 64 ≤ index
    · exact ih later upper
    · have same : index / 64 = start / 64 := by omega
      rw [bitOf, same, uniform, Word.bit_uniform _ (Nat.mod_lt _ (by decide))]
  | case2 => omega
  | case3 start inside _ different ih =>
    by_cases first : index = start
    · rw [first]
      cases value <;> simpa using different
    · exact ih (by omega) upper
  | case4 start outside =>
    have past := upper
    omega

theorem bit_of_next (bitmap : Bitmap) (value : Bool) (start stop : Nat)
    (found : bitmap.next value start stop < stop) :
    bitOf bitmap.words (bitmap.next value start stop) = value := by
  fun_induction next bitmap value start stop with
  | case1 _ _ _ ih => exact ih found
  | case2 _ _ _ same => exact same
  | case3 _ _ _ _ ih => exact ih found
  | case4 => omega

def runsBetween (bitmap : Bitmap) (start stop : Nat) : List Run :=
  let first := bitmap.next true start stop
  if first < stop then
    let last := bitmap.next false (first + 1) stop
    ⟨first, last - first⟩ :: bitmap.runsBetween last stop
  else []
termination_by stop - start
decreasing_by
  rename_i reached
  change bitmap.next true start stop < stop at reached
  have inside : start < stop := by
    by_cases inside : start < stop
    · exact inside
    · rw [next, if_neg inside] at reached
      omega
  have lower := start_le_next bitmap true start stop (by omega)
  have upper := start_le_next bitmap false (bitmap.next true start stop + 1) stop (by omega)
  omega

/-- The maximal runs of set bits among the `length` bits from `offset` on; the window ends where
the bitmap ends. -/
def setRuns (bitmap : Bitmap) (offset length : Nat) : List Run :=
  bitmap.runsBetween offset (min (offset + length) bitmap.length)

theorem runs_between_eq_scan (bitmap : Bitmap) (start stop : Nat) :
    bitmap.runsBetween start stop = Run.scan (bitOf bitmap.words) start stop := by
  fun_induction runsBetween bitmap start stop with
  | case1 start first reached last ih =>
    have inside : start ≤ stop := by
      by_cases inside : start < stop
      · exact Nat.le_of_lt inside
      · simp only [first] at reached
        rw [next, if_neg inside] at reached
        omega
    have opened : bitOf bitmap.words first = true := bit_of_next bitmap true start stop reached
    have lower : first + 1 ≤ last := start_le_next bitmap false (first + 1) stop (by omega)
    rw [ih]
    symm
    refine Run.scan_eq_cons (start_le_next bitmap true start stop inside) lower
      (next_le_stop bitmap false (first + 1) stop) ?_ ?_ ?_
    · intro index low high
      simpa using bit_of_before_next bitmap true start stop low high
    · intro index low high
      by_cases same : index = first
      · rw [same, opened]
      · simpa using bit_of_before_next bitmap false (first + 1) stop (by omega) high
    · intro found
      exact bit_of_next bitmap false (first + 1) stop found
  | case2 start first ended =>
    symm
    apply Run.scan_eq_nil
    intro index low high
    have before : index < bitmap.next true start stop := by
      simp only [first] at ended
      omega
    simpa using bit_of_before_next bitmap true start stop low before

/-- The walk reports the maximal runs of set bits that the search bit by bit finds. -/
theorem set_runs_eq_scan (bitmap : Bitmap) (offset length : Nat) :
    bitmap.setRuns offset length =
      Run.scan bitmap.get offset (min (offset + length) bitmap.length) := by
  have reads : bitmap.get = bitOf bitmap.words := funext bitmap.get_eq_bit_of
  rw [setRuns, runs_between_eq_scan, reads]

def countSetIn (bitmap : Bitmap) (offset length : Nat) : Nat :=
  Run.totalLength (bitmap.setRuns offset length)

end Bitmap

end Comoment
