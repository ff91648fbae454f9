import Comoment.Error

/-!
How the moments of each element type are accumulated. Integers of at most 32 bits are summed
exactly, in chunks short enough for 64 bit sums; the other numbers are traversed twice in floating
point; the rest have no covariance.
-/

namespace Comoment

inductive Strategy where
  /-- Exact integer sums over chunks, for elements of the given width. -/
  | integerExact (bitWidth : Nat)
  /-- Means first, centered products second. -/
  | twoPass
  deriving DecidableEq, Repr

/-- The most slots of the given width whose sum a signed 64 bit integer always holds. -/
def chunkBound (bitWidth : Nat) : Nat := 1 <<< (63 - bitWidth)

namespace Strategy

def select : DataType → Except Error Strategy
  | .int8 | .uint8 => .ok (.integerExact 8)
  | .int16 | .uint16 => .ok (.integerExact 16)
  | .int32 | .uint32 => .ok (.integerExact 32)
  | .int64 | .uint64 | .float32 | .float64 | .decimal128 => .ok .twoPass
  | .float16 => .error (.unsupportedType .float16)
  | .boolean => .error (.unsupportedType .boolean)
  | .utf8 => .error (.unsupportedType .utf8)
  | .binary => .error (.unsupportedType .binary)

end Strategy

end Comoment
