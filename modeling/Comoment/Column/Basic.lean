import Comoment.Bitmap.Runs
import Comoment.Sequence.Basic

/-!
Columns: stored values, and a bitmap of the valid ones that is left out when all are valid. Null
slots keep a placeholder among the values.
-/

namespace Comoment

structure Column (ε : Type) where
  /-- The stored content of every slot. -/
  values : Array ε
  /-- The valid slots, when some slot is null. -/
  validity : Option Bitmap
  /-- A validity bitmap covers every value. -/
  covered : ∀ bits, validity = some bits → bits.length = values.size
  deriving DecidableEq

namespace Column

variable {ε : Type}

def ofArray (values : Array ε) : Column ε where
  values := values
  validity := none
  covered := by simp

/-- The column of values and their validity, which is dropped when every bit is set. -/
def ofValidity (values : Array ε) (bits : Bitmap) (covered : bits.length = values.size) :
    Column ε where
  values := values
  validity := if bits.countSet < bits.length then some bits else none
  covered := by
    intro kept equal
    split at equal
    · rwa [← Option.some.inj equal]
    · simp at equal

def masked (values : Array ε) (bits : Bitmap) : Except Error (Column ε) :=
  if covered : bits.length = values.size then .ok (ofValidity values bits covered)
  else .error (.validityLength values.size bits.length)

def length (column : Column ε) : Nat := column.values.size

def nullCount (column : Column ε) : Nat :=
  match column.validity with
  | none => 0
  | some bits => bits.length - bits.countSet

def isValid (column : Column ε) (index : Nat) : Bool :=
  match column.validity with
  | none => decide (index < column.values.size)
  | some bits => bits.get index

def runsIn (column : Column ε) (offset length : Nat) : List Run :=
  match column.validity with
  | none => Sequence.denseRuns column.values.size offset length
  | some bits => bits.setRuns offset length

def toSequence (column : Column ε) : Sequence ε where
  length := column.length
  nullCount := column.nullCount
  isValid := column.isValid
  slot := Sequence.readSlot column.values
  runsIn := column.runsIn

def toOptions (column : Column ε) : List (Option ε) := column.toSequence.toOptions

end Column

end Comoment
