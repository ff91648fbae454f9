/-!
Options of the aggregations and of the shift.
-/

namespace Comoment

structure VarianceOptions where
  /-- The divisor is the number of pairs less this correction. -/
  ddof : Int := 0
  /-- Whether slots with a null are left out; otherwise one null leaves no value. -/
  skipNulls : Bool := true
  /-- The least number of pairs for which there is a value. -/
  minCount : Int := 0
  deriving DecidableEq, Repr

def VarianceOptions.admits (options : VarianceOptions) (count : Int) (allValid : Bool) : Bool :=
  decide (options.ddof < count) && decide (options.minCount ≤ count) &&
    (allValid || options.skipNulls)

structure ShiftOptions (ε : Type) where
  /-- Positive periods move values to later slots, negative ones to earlier slots. -/
  periods : Int := 1
  /-- The value of the vacated slots, which are null without one. -/
  fillValue : Option ε := none
  deriving DecidableEq, Repr

end Comoment
