/-!
A packed list of bits in 64 bit words. The words are exactly as many as the length needs and hold
no set bit past it, so that equal lists of bits are equal bitmaps and whole words can be counted.
-/

namespace Comoment

/-- Sixty-four bits, the least significant first. -/
abbrev Word := BitVec 64

namespace Word

def write (word : Word) (index : Nat) (value : Bool) : Word :=
  if value then word ||| BitVec.twoPow 64 index else word &&& ~~~BitVec.twoPow 64 index

theorem bit_write (word : Word) {index : Nat} (bound : index < 64) (value : Bool)
    (other : Nat) :
    (word.write index value).getLsbD other =
      if other = index then value else word.getLsbD other := by
  cases value <;> simp [write, BitVec.getLsbD_twoPow] <;> grind

end Word

def bitOf (words : Array Word) (index : Nat) : Bool :=
  (words.getD (index / 64) 0).getLsbD (index % 64)

def writeBit (words : Array Word) (index : Nat) (value : Bool) : Array Word :=
  words.modify (index / 64) fun word => word.write (index % 64) value

theorem write_bit_size (words : Array Word) (index : Nat) (value : Bool) :
    (writeBit words index value).size = words.size := by
  simp [writeBit]

theorem bit_of_write_bit (words : Array Word) {index : Nat} (bound : index / 64 < words.size)
    (value : Bool) (other : Nat) :
    bitOf (writeBit words index value) other =
      if other = index then value else bitOf words other := by
  simp only [bitOf, writeBit, Array.getD_eq_getD_getElem?, Array.getElem?_modify]
  by_cases same : index / 64 = other / 64
  · have inside : other / 64 < words.size := same ▸ bound
    simp only [same, if_true, Array.getElem?_eq_getElem inside, Option.map_some, Option.getD_some]
    rw [Word.bit_write _ (Nat.mod_lt _ (by decide))]
    have position : other % 64 = index % 64 ↔ other = index := by omega
    simp only [position]
  · have apart : other ≠ index := fun equal => same (by rw [equal])
    simp [same, apart]

theorem bit_of_push_zero (words : Array Word) (index : Nat) :
    bitOf (words.push 0) index = bitOf words index := by
  simp only [bitOf, Array.getD_eq_getD_getElem?, Array.getElem?_push]
  split <;> simp_all

theorem bit_of_append_replicate (words : Array Word) (count : Nat) (word : Word) (index : Nat) :
    bitOf (words ++ Array.replicate count word) index =
      if index / 64 < words.size then bitOf words index
      else if index / 64 < words.size + count then word.getLsbD (index % 64)
      else false := by
  simp only [bitOf, Array.getD_eq_getD_getElem?, Array.getElem?_append, Array.getElem?_replicate]
  grind

structure Bitmap where
  words : Array Word
  length : Nat
  size_words : words.size = (length + 63) / 64
  tail_clear : ∀ index, length ≤ index → bitOf words index = false
  deriving DecidableEq

namespace Bitmap

def empty : Bitmap where
  words := #[]
  length := 0
  size_words := rfl
  tail_clear := by simp [bitOf]

def get (bitmap : Bitmap) (index : Nat) : Bool :=
  if index < bitmap.length then bitOf bitmap.words index else false

def toList (bitmap : Bitmap) : List Bool := (List.range bitmap.length).map bitmap.get

def set (bitmap : Bitmap) (index : Nat) (value : Bool) : Bitmap :=
  if inside : index < bitmap.length then
    { words := writeBit bitmap.words index value
      length := bitmap.length
      size_words := by rw [write_bit_size, bitmap.size_words]
      tail_clear := by
        intro other past
        have bound : index / 64 < bitmap.words.size := by rw [bitmap.size_words]; omega
        rw [bit_of_write_bit _ bound, if_neg (by omega), bitmap.tail_clear other past] }
  else bitmap

def push (bitmap : Bitmap) (value : Bool) : Bitmap :=
  let opened := if bitmap.length % 64 = 0 then bitmap.words.push 0 else bitmap.words
  have size_opened : opened.size = (bitmap.length + 1 + 63) / 64 := by
    have size := bitmap.size_words
    simp only [opened]
    split <;> simp_all <;> omega
  have opened_clear : ∀ index, bitmap.length ≤ index → bitOf opened index = false := by
    intro index past
    simp only [opened]
    split
    · rw [bit_of_push_zero, bitmap.tail_clear index past]
    · exact bitmap.tail_clear index past
  { words := writeBit opened bitmap.length value
    length := bitmap.length + 1
    size_words := by rw [write_bit_size, size_opened]
    tail_clear := by
      intro index past
      have bound : bitmap.length / 64 < opened.size := by rw [size_opened]; omega
      rw [bit_of_write_bit _ bound, if_neg (by omega), opened_clear index (by omega)] }

def pushMany (bitmap : Bitmap) (value : Bool) : Nat → Bitmap
  | 0 => bitmap
  | count + 1 => (bitmap.push value).pushMany value count

/-- Appends `count` unset bits; the last word already ends in unset bits. -/
def appendClear (bitmap : Bitmap) (count : Nat) : Bitmap where
  words := bitmap.words ++
    Array.replicate ((bitmap.length + count + 63) / 64 - bitmap.words.size) 0
  length := bitmap.length + count
  size_words := by
    have size := bitmap.size_words
    simp only [Array.size_append, Array.size_replicate]
    omega
  tail_clear := by
    intro index past
    rw [bit_of_append_replicate]
    split
    · exact bitmap.tail_clear index (by omega)
    · simp

/-- Appends `count` words of set bits to a bitmap whose last word is full. -/
def appendFullWords (bitmap : Bitmap) (aligned : bitmap.length % 64 = 0) (count : Nat) :
    Bitmap where
  words := bitmap.words ++ Array.replicate count (BitVec.allOnes 64)
  length := bitmap.length + 64 * count
  size_words := by
    have size := bitmap.size_words
    simp only [Array.size_append, Array.size_replicate]
    omega
  tail_clear := by
    intro index past
    have size := bitmap.size_words
    rw [bit_of_append_replicate, if_neg (by omega), if_neg (by omega)]

theorem push_length (bitmap : Bitmap) (value : Bool) :
    (bitmap.push value).length = bitmap.length + 1 := rfl

theorem push_many_length (bitmap : Bitmap) (value : Bool) (count : Nat) :
    (bitmap.pushMany value count).length = bitmap.length + count := by
  induction count generalizing bitmap with
  | zero => rfl
  | succ count ih => rw [pushMany, ih, push_length]; omega

/-- Appends `count` set bits: the open word bit by bit, then whole words, then the rest. -/
def appendSet (bitmap : Bitmap) (count : Nat) : Bitmap :=
  let gap := (64 - bitmap.length % 64) % 64
  if short : count ≤ gap then bitmap.pushMany true count
  else
    let filled := bitmap.pushMany true gap
    have aligned : filled.length % 64 = 0 := by
      simp only [filled, gap, push_many_length]
      omega
    (filled.appendFullWords aligned ((count - gap) / 64)).pushMany true ((count - gap) % 64)

def extend (bitmap : Bitmap) (count : Nat) (value : Bool) : Bitmap :=
  if value then bitmap.appendSet count else bitmap.appendClear count

def replicate (count : Nat) (value : Bool) : Bitmap := empty.extend count value

def ofList (bits : List Bool) : Bitmap := bits.foldl push empty

def countSet (bitmap : Bitmap) : Nat :=
  bitmap.words.foldl (fun total word => total + word.cpop.toNat) 0

end Bitmap

end Comoment
