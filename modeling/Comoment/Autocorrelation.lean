import Comoment.RelativeChange

/-!
The correlation of a sequence with itself some slots earlier: the covariance with the shifted
sequence, divided by the variance of the whole sequence and by the number of observations. It pairs
the slots that hold a value with those that hold one a lag before them.
-/

namespace Comoment

namespace Sequence

variable {ε : Type}

/-- The values of a slot and of the slot `lag` before it, if both hold one. -/
def laggedAt? (values : Sequence ε) (lag : Int) (index : Nat) : Option (ε × ε) :=
  if 0 ≤ index - lag ∧ index - lag < values.length then
    (values.get? index).bind fun current =>
      (values.get? (index - lag).toNat).map fun earlier => (current, earlier)
  else none

def laggedPairs (values : Sequence ε) (lag : Int) : List (ε × ε) :=
  (List.range values.length).filterMap (values.laggedAt? lag)

def HasLaggedPair (values : Sequence ε) (lag : Int) : Prop :=
  ∃ index : Nat, index < values.length ∧ 0 ≤ index - lag ∧ index - lag < values.length ∧
    values.isValid index = true ∧ values.isValid (index - lag).toNat = true

end Sequence

def autocorrelation {ε α : Type} [Element ε] [Scalar α] (lag : Int) (values : Sequence ε) :
    Except Error (Option α) :=
  if (values.length : Int) < lag then .error (.lagOutOfRange lag values.length)
  else do
    let earlier := (shift { periods := lag } values).toSequence
    let some (lagged : α) ← covariance {} values earlier | return none
    let some (whole : α) ← variance {} values | return none
    return some (lagged / whole / Scalar.ofInt (values.length - 1 - lag))

end Comoment
