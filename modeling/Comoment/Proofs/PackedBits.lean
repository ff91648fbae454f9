import Comoment.Proofs.BitCount
import Comoment.Proofs.MachineIntegers

/-!
Bitmaps as bare words and a length, about which nothing is known. Every operation is repeated with
a check that the words it touches exist and that the new length is a position in memory. Whichever
way a bitmap is created and edited no check fails, and words and length are those of its bits.
-/

namespace Comoment

/-- Words and a length, which need not fit together. -/
structure PackedBits where
  words : Array Word
  length : Nat
  deriving DecidableEq

namespace PackedBits

def empty : PackedBits := ⟨#[], 0⟩

def getChecked (bits : PackedBits) (index : Nat) : Option Bool :=
  if index < bits.length then do
    let word ← bits.words[index / 64]?
    return word.getLsbD (index % 64)
  else some false

def setChecked (bits : PackedBits) (index : Nat) (value : Bool) : Option PackedBits :=
  if index < bits.length then do
    let _ ← bits.words[index / 64]?
    return ⟨writeBit bits.words index value, bits.length⟩
  else some bits

def pushChecked (bits : PackedBits) (value : Bool) : Option PackedBits := do
  let words := if bits.length % 64 = 0 then bits.words.push 0 else bits.words
  let length ← unsigned 64 (bits.length + 1)
  setChecked ⟨words, length⟩ (length - 1) value

def pushManyChecked (bits : PackedBits) : Nat → Option PackedBits
  | 0 => some bits
  | count + 1 => do
    let next ← bits.pushChecked true
    next.pushManyChecked count

/-- Pushes set bits until the last word is full or `count` are pushed, and tells how many are
left. -/
def fillWordChecked (bits : PackedBits) : Nat → Option (PackedBits × Nat)
  | 0 => some (bits, 0)
  | count + 1 =>
    if bits.length % 64 = 0 then some (bits, count + 1)
    else do
      let next ← bits.pushChecked true
      next.fillWordChecked count

def resize (words : Array Word) (size : Nat) : Array Word :=
  words.take size ++ Array.replicate (size - words.size) 0

def appendClearChecked (bits : PackedBits) (count : Nat) : Option PackedBits := do
  let length ← unsigned 64 (bits.length + count)
  return ⟨resize bits.words ((length + 63) / 64), length⟩

def appendWordsChecked (bits : PackedBits) (count : Nat) : Option PackedBits := do
  let length ← unsigned 64 (bits.length + count / 64 * 64)
  let words := bits.words ++ Array.replicate (count / 64) (BitVec.allOnes 64)
  pushManyChecked ⟨words, length⟩ (count % 64)

def appendSetChecked (bits : PackedBits) (count : Nat) : Option PackedBits := do
  let (filled, left) ← bits.fillWordChecked count
  filled.appendWordsChecked left

def extendChecked (bits : PackedBits) (count : Nat) (value : Bool) : Option PackedBits :=
  if value then bits.appendSetChecked count else bits.appendClearChecked count

end PackedBits

namespace Bitmap

inductive Origin where
  | empty
  /-- An empty bitmap with room for some bits. -/
  | reserved (capacity : Nat)
  | filled (count : Nat) (value : Bool)
  | collected (bits : List Bool)

inductive Edit where
  | push (value : Bool)
  | set (index : Nat) (value : Bool)
  | extend (count : Nat) (value : Bool)

def Origin.bits : Origin → List Bool
  | empty | reserved _ => []
  | filled count value => List.replicate count value
  | collected bits => bits

def Origin.bitmap : Origin → Bitmap
  | empty | reserved _ => Bitmap.empty
  | filled count value => Bitmap.replicate count value
  | collected bits => Bitmap.ofList bits

def Origin.checked : Origin → Option PackedBits
  | empty | reserved _ => some PackedBits.empty
  | filled count value => PackedBits.empty.extendChecked count value
  | collected bits => bits.foldlM PackedBits.pushChecked PackedBits.empty

def Edit.bits (bits : List Bool) : Edit → List Bool
  | push value => bits ++ [value]
  | set index value => bits.set index value
  | extend count value => bits ++ List.replicate count value

def edit (bitmap : Bitmap) : Edit → Bitmap
  | .push value => bitmap.push value
  | .set index value => bitmap.set index value
  | .extend count value => bitmap.extend count value

def Edit.checked (packed : PackedBits) : Edit → Option PackedBits
  | push value => packed.pushChecked value
  | set index value => packed.setChecked index value
  | extend count value => packed.extendChecked count value

structure History where
  origin : Origin
  edits : List Edit

namespace History

def bits (history : History) : List Bool := history.edits.foldl Edit.bits history.origin.bits

def bitmap (history : History) : Bitmap := history.edits.foldl edit history.origin.bitmap

/-- The words and the length that the calls make, if no check fails. -/
def checked (history : History) : Option PackedBits :=
  history.origin.checked.bind fun packed => history.edits.foldlM Edit.checked packed

end History

section List

theorem to_list_of_list (bits : List Bool) : (ofList bits).toList = bits := by
  have pushed : ∀ bitmap : Bitmap, (bits.foldl push bitmap).toList = bitmap.toList ++ bits := by
    induction bits with
    | nil => simp
    | cons value bits ih =>
      intro bitmap
      rw [List.foldl_cons, ih, to_list_push, List.append_assoc]
      rfl
  exact pushed empty

theorem to_list_origin (origin : Origin) : origin.bitmap.toList = origin.bits := by
  cases origin with
  | empty => rfl
  | reserved capacity => rfl
  | filled count value => exact to_list_extend empty count value
  | collected bits => exact to_list_of_list bits

theorem to_list_edit (bitmap : Bitmap) (call : Edit) :
    (bitmap.edit call).toList = call.bits bitmap.toList := by
  cases call with
  | push value => exact bitmap.to_list_push value
  | set index value => exact bitmap.to_list_set index value
  | extend count value => exact bitmap.to_list_extend count value

theorem to_list_history (history : History) : history.bitmap.toList = history.bits := by
  obtain ⟨origin, edits⟩ := history
  induction edits using List.reverseRecOn with
  | nil => exact to_list_origin origin
  | append_singleton edits call ih =>
    simp only [History.bitmap, History.bits, List.foldl_append, List.foldl_cons,
      List.foldl_nil] at ih ⊢
    rw [to_list_edit, ih]

theorem count_set_eq_count (bitmap : Bitmap) : bitmap.countSet = bitmap.toList.count true := by
  rw [count_set_eq, toList, List.count, List.countP_map]
  apply List.countP_congr
  intro index _
  simp

theorem get_eq_get_d (bitmap : Bitmap) (index : Nat) :
    bitmap.get index = bitmap.toList.getD index false := by
  rw [List.getD_eq_getElem?_getD, to_list_get?]
  split
  · rfl
  · rename_i past
    exact bitmap.get_past_end (Nat.le_of_not_lt past)

end List

def packed (bitmap : Bitmap) : PackedBits := ⟨bitmap.words, bitmap.length⟩

theorem packed_eq_iff {first second : Bitmap} :
    first.packed = second.packed ↔ first.toList = second.toList := by
  constructor
  · intro same
    obtain ⟨words, length⟩ := PackedBits.mk.inj same
    rw [toList, toList, length]
    apply List.map_congr_left
    intro index _
    rw [first.get_eq_bit_of, second.get_eq_bit_of, words]
  · intro same
    rw [eq_of_to_list_eq same]

section Checked

variable (bitmap : Bitmap)

theorem word_exists {index : Nat} (inside : index < bitmap.length) :
    ∃ word, bitmap.words[index / 64]? = some word := by
  have size := bitmap.size_words
  have bound : index / 64 < bitmap.words.size := by omega
  exact ⟨bitmap.words[index / 64], Array.getElem?_eq_getElem bound⟩

theorem get_checked_eq (index : Nat) :
    bitmap.packed.getChecked index = some (bitmap.get index) := by
  unfold PackedBits.getChecked
  by_cases inside : index < bitmap.length
  · obtain ⟨word, found⟩ := bitmap.word_exists inside
    have bit : bitmap.get index = word.getLsbD (index % 64) := by
      rw [get_eq_bit_of, bitOf, Array.getD_eq_getD_getElem?, found]
      rfl
    rw [bit, packed, if_pos inside, found]
    rfl
  · rw [packed, if_neg inside, bitmap.get_past_end (Nat.le_of_not_lt inside)]

theorem set_checked_eq (index : Nat) (value : Bool) :
    bitmap.packed.setChecked index value = some (bitmap.set index value).packed := by
  unfold PackedBits.setChecked set
  by_cases inside : index < bitmap.length
  · obtain ⟨word, found⟩ := bitmap.word_exists inside
    rw [packed, if_pos inside, found, dif_pos inside]
    rfl
  · rw [packed, if_neg inside, dif_neg inside]
    rfl

theorem push_checked_eq (value : Bool) (inMemory : bitmap.length + 1 < 2 ^ 64) :
    bitmap.packed.pushChecked value = some (bitmap.push value).packed := by
  let opened := if bitmap.length % 64 = 0 then bitmap.words.push 0 else bitmap.words
  have bound : bitmap.length / 64 < opened.size := by
    have size := bitmap.size_words
    simp only [opened]
    split
    · rw [Array.size_push]
      omega
    · omega
  have found : opened[bitmap.length / 64]? = some opened[bitmap.length / 64] :=
    Array.getElem?_eq_getElem bound
  change ((unsigned 64 (bitmap.length + 1)).bind fun length =>
    PackedBits.setChecked ⟨opened, length⟩ (length - 1) value) = _
  rw [unsigned_eq_some inMemory, Option.bind_some, PackedBits.setChecked,
    if_pos (Nat.sub_lt (Nat.succ_pos _) Nat.one_pos), Nat.add_sub_cancel, found]
  rfl

theorem push_many_checked_eq (count : Nat) (inMemory : bitmap.length + count < 2 ^ 64) :
    bitmap.packed.pushManyChecked count = some (bitmap.pushMany true count).packed := by
  induction count generalizing bitmap with
  | zero => rfl
  | succ count ih =>
    have rest := ih (bitmap.push true) (by rw [push_length]; omega)
    rw [PackedBits.pushManyChecked, bitmap.push_checked_eq true (by omega)]
    exact rest

theorem fill_word_checked_eq (count : Nat) (inMemory : bitmap.length + count < 2 ^ 64) :
    let pushed := min count ((64 - bitmap.length % 64) % 64)
    bitmap.packed.fillWordChecked count =
      some ((bitmap.pushMany true pushed).packed, count - pushed) := by
  induction count generalizing bitmap with
  | zero =>
    rw [Nat.zero_min]
    rfl
  | succ count ih =>
    intro pushed
    rw [PackedBits.fillWordChecked]
    by_cases full : bitmap.length % 64 = 0
    · have none : pushed = 0 := by omega
      rw [packed, if_pos full, none]
      rfl
    · have rest := ih (bitmap.push true) (by rw [push_length]; omega)
      have more : pushed =
          min count ((64 - (bitmap.push true).length % 64) % 64) + 1 := by
        rw [push_length]
        omega
      have filling : ¬bitmap.packed.length % 64 = 0 := full
      rw [if_neg filling, bitmap.push_checked_eq true (by omega), more, Nat.add_sub_add_right]
      exact rest

theorem append_clear_checked_eq (count : Nat) (inMemory : bitmap.length + count < 2 ^ 64) :
    bitmap.packed.appendClearChecked count = some (bitmap.appendClear count).packed := by
  have size := bitmap.size_words
  have kept : bitmap.words.take ((bitmap.length + count + 63) / 64) = bitmap.words := by
    rw [Array.take_eq_extract]
    exact Array.extract_eq_self_of_le (by omega)
  change ((unsigned 64 (bitmap.length + count)).bind fun length =>
    some (⟨PackedBits.resize bitmap.words ((length + 63) / 64), length⟩ : PackedBits)) = _
  rw [unsigned_eq_some inMemory, Option.bind_some, PackedBits.resize, kept]
  rfl

theorem append_words_checked_eq (aligned : bitmap.length % 64 = 0) (count : Nat)
    (inMemory : bitmap.length + count < 2 ^ 64) :
    bitmap.packed.appendWordsChecked count =
      some ((bitmap.appendFullWords aligned (count / 64)).pushMany true (count % 64)).packed := by
  let full := bitmap.appendFullWords aligned (count / 64)
  have length : full.length = bitmap.length + count / 64 * 64 := by
    rw [Nat.mul_comm]
    rfl
  have rest := full.push_many_checked_eq (count % 64) (by omega)
  change ((unsigned 64 (bitmap.length + count / 64 * 64)).bind fun length =>
    PackedBits.pushManyChecked ⟨full.words, length⟩ (count % 64)) = _
  rw [unsigned_eq_some (by omega), Option.bind_some, ← length]
  exact rest

theorem append_no_words_checked_eq (inMemory : bitmap.length < 2 ^ 64) :
    bitmap.packed.appendWordsChecked 0 = some bitmap.packed := by
  change ((unsigned 64 bitmap.length).bind fun length =>
    some (⟨bitmap.words ++ Array.replicate 0 (BitVec.allOnes 64), length⟩ : PackedBits)) = _
  rw [unsigned_eq_some inMemory, Option.bind_some, Array.replicate_zero, Array.append_empty]
  rfl

theorem append_set_checked_eq (count : Nat) (inMemory : bitmap.length + count < 2 ^ 64) :
    bitmap.packed.appendSetChecked count = some (bitmap.appendSet count).packed := by
  let gap := (64 - bitmap.length % 64) % 64
  have filled : bitmap.packed.fillWordChecked count =
      some ((bitmap.pushMany true (min count gap)).packed, count - min count gap) :=
    bitmap.fill_word_checked_eq count inMemory
  have length := push_many_length bitmap true (min count gap)
  rw [PackedBits.appendSetChecked, filled]
  change (bitmap.pushMany true (min count gap)).packed.appendWordsChecked
    (count - min count gap) = _
  by_cases short : count ≤ gap
  · have whole : bitmap.appendSet count = bitmap.pushMany true count := dif_pos short
    rw [Nat.min_eq_left short] at length ⊢
    rw [Nat.sub_self, whole]
    exact append_no_words_checked_eq _ (by omega)
  · rw [Nat.min_eq_right (by omega)] at length ⊢
    have aligned : (bitmap.pushMany true gap).length % 64 = 0 := by omega
    have whole : bitmap.appendSet count =
        ((bitmap.pushMany true gap).appendFullWords aligned ((count - gap) / 64)).pushMany true
          ((count - gap) % 64) := dif_neg short
    rw [whole]
    exact append_words_checked_eq _ aligned (count - gap) (by omega)

theorem extend_checked_eq (count : Nat) (value : Bool)
    (inMemory : bitmap.length + count < 2 ^ 64) :
    bitmap.packed.extendChecked count value = some (bitmap.extend count value).packed := by
  cases value with
  | false => exact bitmap.append_clear_checked_eq count inMemory
  | true => exact bitmap.append_set_checked_eq count inMemory

theorem edit_checked_eq (call : Edit) (inMemory : (bitmap.edit call).length < 2 ^ 64) :
    call.checked bitmap.packed = some (bitmap.edit call).packed := by
  cases call with
  | push value => exact bitmap.push_checked_eq value inMemory
  | set index value => exact bitmap.set_checked_eq index value
  | extend count value =>
    have bounded : bitmap.length + count < 2 ^ 64 := extend_length bitmap count value ▸ inMemory
    exact bitmap.extend_checked_eq count value bounded

theorem length_le_edit (call : Edit) : bitmap.length ≤ (bitmap.edit call).length := by
  cases call with
  | push value => exact Nat.le_succ _
  | set index value => exact Nat.le_of_eq (bitmap.set_length index value).symm
  | extend count value =>
    change bitmap.length ≤ (bitmap.extend count value).length
    rw [extend_length]
    exact Nat.le_add_right _ _

end Checked

/-- Checked calls follow those on bitmaps as long as the final length, which no call has passed
before, is a position in memory. -/
theorem foldl_m_checked_eq {ι : Type} {checked : PackedBits → ι → Option PackedBits}
    {plain : Bitmap → ι → Bitmap}
    (grows : ∀ bitmap call, bitmap.length ≤ (plain bitmap call).length)
    (step : ∀ bitmap call, (plain bitmap call).length < 2 ^ 64 →
      checked bitmap.packed call = some (plain bitmap call).packed)
    (calls : List ι) (bitmap : Bitmap) (inMemory : (calls.foldl plain bitmap).length < 2 ^ 64) :
    calls.foldlM checked bitmap.packed = some (calls.foldl plain bitmap).packed ∧
      bitmap.length < 2 ^ 64 := by
  induction calls generalizing bitmap with
  | nil => exact ⟨rfl, inMemory⟩
  | cons call calls ih =>
    obtain ⟨rest, next⟩ := ih (plain bitmap call) inMemory
    rw [List.foldlM_cons, step bitmap call next]
    exact ⟨rest, Nat.lt_of_le_of_lt (grows bitmap call) next⟩

theorem origin_checked_eq (origin : Origin) (inMemory : origin.bitmap.length < 2 ^ 64) :
    origin.checked = some origin.bitmap.packed := by
  cases origin with
  | empty => rfl
  | reserved capacity => rfl
  | filled count value =>
    have bounded : empty.length + count < 2 ^ 64 := extend_length empty count value ▸ inMemory
    exact empty.extend_checked_eq count value bounded
  | collected bits =>
    have grows : ∀ (bitmap : Bitmap) (value : Bool),
        bitmap.length ≤ (bitmap.push value).length := fun _ _ => Nat.le_succ _
    exact (foldl_m_checked_eq grows push_checked_eq bits empty inMemory).1

theorem history_checked_eq (history : History) (inMemory : history.bits.length < 2 ^ 64) :
    history.checked = some history.bitmap.packed := by
  rw [← to_list_history, to_list_length] at inMemory
  obtain ⟨edited, started⟩ := foldl_m_checked_eq length_le_edit edit_checked_eq history.edits
    history.origin.bitmap inMemory
  rw [History.checked, origin_checked_eq history.origin started]
  exact edited

end Bitmap

/-- Whatever calls make a bitmap, it has the words its length needs and no set bit past it, its
bits are those that the calls make of a list, and two bitmaps agree in words and length exactly if
their lists are equal. The calls never touch a word that does not exist while the list is no
longer than memory. -/
theorem bitmap_histories_refine_lists (history : Bitmap.History) :
    let bitmap := history.bitmap
    let bits := history.bits
    bitmap.length = bits.length ∧
      bitmap.words.size = (bits.length + 63) / 64 ∧
      (∀ index, bits.length ≤ index → bitOf bitmap.words index = false) ∧
      bitmap.toList = bits ∧
      (∀ call : Bitmap.Edit, (bitmap.edit call).toList = call.bits bits) ∧
      (∀ index, bitmap.get index = bits.getD index false) ∧
      bitmap.countSet = bits.count true ∧
      (∀ other : Bitmap.History, bitmap.packed = other.bitmap.packed ↔ bits = other.bits) ∧
      (bits.length < 2 ^ 64 →
        history.checked = some bitmap.packed ∧
          ∀ index, bitmap.packed.getChecked index = some (bits.getD index false)) := by
  intro bitmap bits
  have listed : bitmap.toList = bits := Bitmap.to_list_history history
  have length : bitmap.length = bits.length := by
    rw [← listed, Bitmap.to_list_length]
  have reads : ∀ index, bitmap.get index = bits.getD index false := by
    intro index
    rw [bitmap.get_eq_get_d, listed]
  refine ⟨length, length ▸ bitmap.size_words, fun index past => bitmap.tail_clear index ?_,
    listed, ?_, reads, ?_, ?_, ?_⟩
  · exact length ▸ past
  · intro call
    rw [bitmap.to_list_edit, listed]
  · rw [bitmap.count_set_eq_count, listed]
  · intro other
    rw [Bitmap.packed_eq_iff, listed, Bitmap.to_list_history]
  · intro inMemory
    refine ⟨Bitmap.history_checked_eq history inMemory, fun index => ?_⟩
    rw [bitmap.get_checked_eq, reads]

/-- Set bits that finish a word, fill whole ones and begin another, then unset ones. -/
theorem bitmap_histories_refine_lists_words :
    let history : Bitmap.History :=
      ⟨.filled 61 true, [.set 3 false, .extend 70 true, .extend 64 false, .push true, .set 900 true]⟩
    history.bits.length < 2 ^ 64 ∧ history.checked = some history.bitmap.packed ∧
      history.bitmap.words.size = 4 ∧ history.bitmap.countSet = 131 := by
  intro history
  have inMemory : history.bits.length < 2 ^ 64 := by decide +kernel
  have refined := bitmap_histories_refine_lists history
  have count : history.bits.count true = 131 := by decide +kernel
  have size : (history.bits.length + 63) / 64 = 4 := by decide +kernel
  exact ⟨inMemory, (refined.2.2.2.2.2.2.2.2 inMemory).1, refined.2.1.trans size,
    refined.2.2.2.2.2.2.1.trans count⟩

end Comoment
