import Comoment.Sequence.Basic

/-!
Windows of a sequence. Bounds are clamped to the sequence, positions count from the start of the
window, and a window of a window is again a window. Only validity ends with the window: a raw read
goes on into the slots of the sequence below.
-/

namespace Comoment

structure Window (ε : Type) where
  base : Sequence ε
  offset : Nat
  length : Nat
  inside : offset + length ≤ base.length

namespace Sequence

variable {ε : Type}

def window (values : Sequence ε) (offset length : Nat) : Window ε where
  base := values
  offset := min offset values.length
  length := min length (values.length - min offset values.length)
  inside := by omega

end Sequence

namespace Window

variable {ε : Type}

def runsIn (window : Window ε) (offset length : Nat) : List Run :=
  let start := min offset window.length
  (window.base.runsIn (window.offset + start) (min length (window.length - start))).map
    (Run.shiftDown window.offset)

def nullCount (window : Window ε) : Nat :=
  if window.base.nullCount = 0 then 0
  else window.length - Run.totalLength (window.base.runsIn window.offset window.length)

def toSequence (window : Window ε) : Sequence ε where
  length := window.length
  nullCount := window.nullCount
  isValid index := decide (index < window.length) && window.base.isValid (window.offset + index)
  slot index := window.base.slot (window.offset + index)
  runsIn := window.runsIn

end Window

def Sequence.slice {ε : Type} (values : Sequence ε) (offset length : Nat) : Sequence ε :=
  (values.window offset length).toSequence

end Comoment
