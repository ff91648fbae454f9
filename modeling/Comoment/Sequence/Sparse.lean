import Comoment.Sequence.Basic

/-!
Sparse sequences: very long, with few valid slots, given as segments of consecutive values. All
questions cost work proportional to the segments, never to the length.
-/

namespace Comoment

structure Segment (ε : Type) where
  start : Nat
  values : Array ε

namespace Segment

variable {ε : Type}

def run (segment : Segment ε) : Run := ⟨segment.start, segment.values.size⟩

def stop (segment : Segment ε) : Nat := segment.run.stop

def find? (segment : Segment ε) (index : Nat) : Option ε :=
  if segment.start ≤ index then segment.values[index - segment.start]? else none

def clip? (segment : Segment ε) (start stop : Nat) : Option Run :=
  let first := max segment.start start
  let last := min segment.stop stop
  if first < last then some ⟨first, last - first⟩ else none

end Segment

/-- A sequence that is null outside its segments. -/
structure SparseSequence (ε : Type) where
  length : Nat
  segments : List (Segment ε)

namespace SparseSequence

variable {ε : Type}

/-- The segments ascend, leave a gap between each other and end within the sequence. -/
def Separated (sparse : SparseSequence ε) : Prop :=
  sparse.segments.Pairwise (fun first second => first.stop < second.start) ∧
    ∀ segment ∈ sparse.segments, 0 < segment.values.size ∧ segment.stop ≤ sparse.length

def find? (sparse : SparseSequence ε) (index : Nat) : Option ε :=
  if index < sparse.length then sparse.segments.findSome? fun segment => segment.find? index
  else none

def toSequence [Inhabited ε] (sparse : SparseSequence ε) : Sequence ε where
  length := sparse.length
  nullCount := sparse.length - Run.totalLength (sparse.segments.map Segment.run)
  isValid index := (sparse.find? index).isSome
  slot index :=
    if index < sparse.length then .ok ((sparse.find? index).getD default)
    else .error (.indexOutOfBounds sparse.length index)
  runsIn offset length :=
    sparse.segments.filterMap fun segment =>
      segment.clip? offset (min (offset + length) sparse.length)

end SparseSequence

end Comoment
