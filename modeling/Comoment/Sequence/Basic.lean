import Comoment.Error
import Comoment.Run

/-!
Nullable sequences: a number of slots, each valid or null, with positional access and a walk over
the maximal runs of valid slots. A sequence is the set of answers it gives, so arrays, columns,
windows and sparse data all meet the accumulations through the same five questions. Two sequences
pair slot by slot, as far as the shorter one reaches.
-/

namespace Comoment

structure Sequence (ε : Type) where
  length : Nat
  nullCount : Nat
  /-- Whether the slot holds a value; false past the end. -/
  isValid : Nat → Bool
  /-- The stored content of a slot, which for a null slot is a placeholder. -/
  slot : Nat → Except Error ε
  /-- The maximal runs of valid slots in the window of a given offset and length. -/
  runsIn : Nat → Nat → List Run

namespace Sequence

variable {ε : Type}

def validCount (values : Sequence ε) : Nat := values.length - values.nullCount

def runs (values : Sequence ε) : List Run := values.runsIn 0 values.length

/-- The stored content of a slot, or the placeholder where nothing is stored. -/
def value [Inhabited ε] (values : Sequence ε) (index : Nat) : ε :=
  match values.slot index with
  | .ok stored => stored
  | .error _ => default

def get? (values : Sequence ε) (index : Nat) : Option ε :=
  if values.isValid index then (values.slot index).toOption else none

def toOptions (values : Sequence ε) : List (Option ε) :=
  (List.range values.length).map values.get?

/-- The answers of a sequence describe the same slots: validity ends with the length, valid slots
are stored, nulls are counted, and the walk agrees with the search slot by slot. -/
structure Lawful (values : Sequence ε) : Prop where
  valid_inside : ∀ index, values.isValid index → index < values.length
  valid_stored : ∀ index, values.isValid index → ∃ stored, values.slot index = .ok stored
  null_count : values.nullCount =
    (List.range values.length).countP fun index => !values.isValid index
  runs_scan : ∀ offset length, values.runsIn offset length =
    Run.scan values.isValid offset (min (offset + length) values.length)

def denseRuns (size offset length : Nat) : List Run :=
  let stop := min (offset + length) size
  if offset < stop then [⟨offset, stop - offset⟩] else []

def readSlot {α : Type} (slots : Array α) (index : Nat) : Except Error α :=
  if inside : index < slots.size then .ok slots[index]
  else .error (.indexOutOfBounds slots.size index)

def ofArray (values : Array ε) : Sequence ε where
  length := values.size
  nullCount := 0
  isValid index := decide (index < values.size)
  slot := readSlot values
  runsIn := denseRuns values.size

/-- A sequence of optional values; a null slot reads as the placeholder. -/
def ofOptions [Inhabited ε] (slots : Array (Option ε)) : Sequence ε :=
  let isValid index := (slots.getD index none).isSome
  { length := slots.size
    nullCount := slots.countP Option.isNone
    isValid := isValid
    slot := fun index => (readSlot slots index).map fun slot => slot.getD default
    runsIn := fun offset length => Run.scan isValid offset (min (offset + length) slots.size) }

end Sequence

/-- The maximal runs of paired slots in the window of a given offset and length. An operand without
nulls adds no bounds of its own, so the runs of the other one are the answer. -/
def pairedRunsIn {ε δ : Type} (x : Sequence ε) (y : Sequence δ) (offset length : Nat) :
    List Run :=
  let length := min length (min x.length y.length - offset)
  if y.nullCount = 0 then x.runsIn offset length
  else if x.nullCount = 0 then y.runsIn offset length
  else (x.runsIn offset length).flatMap fun run => y.runsIn run.start run.length

def pairedRuns {ε δ : Type} (x : Sequence ε) (y : Sequence δ) : List Run :=
  pairedRunsIn x y 0 (min x.length y.length)

end Comoment
