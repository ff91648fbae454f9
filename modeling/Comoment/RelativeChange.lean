import Comoment.AnyColumn
import Comoment.Column.Builder

/-!
Shifting a sequence by a number of slots, and its relative change against itself some slots earlier.
A shifted sequence has the same length: values that would leave it are dropped, and the slots that
become free are filled with one value or with nulls. The change is the quotient of both values less
one, null where one of them is null; a zero reference is divided by like any other.
-/

namespace Comoment

def shiftedSlots {ε : Type} (options : ShiftOptions ε) (values : Sequence ε) : List (Option ε) :=
  let vacated := min options.periods.natAbs values.length
  let kept := values.length - vacated
  let filling := List.replicate vacated options.fillValue
  if 0 < options.periods then filling ++ (List.range kept).map values.get?
  else (List.range' vacated kept).map values.get? ++ filling

/-- The sequence shifted by `periods` slots, to later slots when they are positive. -/
def shift {ε : Type} [Inhabited ε] (options : ShiftOptions ε) (values : Sequence ε) : Column ε :=
  Column.ofOptions (shiftedSlots options values)

def Column.moved {ε : Type} [Inhabited ε] (periods : Int) (column : Column ε) : Column ε :=
  shift { periods := periods } column.toSequence

def AnyColumn.shift (periods : Int) : AnyColumn → AnyColumn
  | .boolean column => .boolean (column.moved periods)
  | .int8 column => .int8 (column.moved periods)
  | .int16 column => .int16 (column.moved periods)
  | .int32 column => .int32 (column.moved periods)
  | .int64 column => .int64 (column.moved periods)
  | .uint8 column => .uint8 (column.moved periods)
  | .uint16 column => .uint16 (column.moved periods)
  | .uint32 column => .uint32 (column.moved periods)
  | .uint64 column => .uint64 (column.moved periods)
  | .float16 column => .float16 (column.moved periods)
  | .float32 column => .float32 (column.moved periods)
  | .float64 column => .float64 (column.moved periods)
  | .decimal128 column scale => .decimal128 (column.moved periods) scale
  | .utf8 column => .utf8 (column.moved periods)
  | .binary column => .binary (column.moved periods)

/-- The change of every slot against the slot `periods` earlier. -/
def relativeChange {ε α : Type} [Element ε] [Scalar α] [Inhabited α] (periods : Int)
    (values : Sequence ε) : Except Error (Column α) :=
  if (values.length : Int) < periods then .error (.periodsOutOfRange periods values.length)
  else
    let earlier := (shift { periods := periods } values).toSequence
    let change (current previous : ε) : α :=
      Element.toScalar 0 current / Element.toScalar 0 previous - Scalar.ofInt 1
    .ok <| Column.ofOptions <| (List.range values.length).map fun index =>
      (values.get? index).bind fun current => (earlier.get? index).map (change current)

end Comoment
