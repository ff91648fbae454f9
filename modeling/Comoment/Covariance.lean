import Comoment.Moments.Exact
import Comoment.Options

/-!
Covariance over any number of chunks. A state absorbs chunks one by one or merges with the state of
other chunks, and is read at the end. In strict mode a chunk with a null adds no pair, and the null
alone leaves the final state without a value.
-/

namespace Comoment

/-- The covariance of the chunks absorbed so far, for elements of type `ε`. -/
structure CovarianceState (ε α : Type) where
  moments : Moments α
  /-- Whether no chunk so far contained a null. -/
  allValid : Bool
  decimalScale : Int
  options : VarianceOptions

namespace CovarianceState

variable {ε α : Type} [Element ε] [Scalar α]

def empty (options : VarianceOptions) (decimalScale : Int) : CovarianceState ε α where
  moments := Moments.empty
  allValid := true
  decimalScale := decimalScale
  options := options

def absorb (x y : Sequence ε) : EStateM Error (CovarianceState ε α) Unit := do
  if x.length ≠ y.length then
    throw (.lengthMismatch x.length y.length)
  let chunkValid := decide (x.nullCount = 0) && decide (y.nullCount = 0)
  modify fun state => { state with allValid := state.allValid && chunkValid }
  if chunkValid || (← get).options.skipNulls then
    modify fun state =>
      { state with moments := state.moments.merge (Element.moments state.decimalScale x y) }

def consume (state : CovarianceState ε α) (x y : Sequence ε) :
    Except Error (CovarianceState ε α) :=
  outcomeOf (absorb x y) state

/-- The state of the chunks of both; options and scale are those of the first. -/
def merge (first second : CovarianceState ε α) : CovarianceState ε α :=
  { first with
    moments := first.moments.merge second.moments
    allValid := first.allValid && second.allValid }

def isAdmitted (state : CovarianceState ε α) : Bool :=
  state.options.admits state.moments.count state.allValid

def divisor (state : CovarianceState ε α) : α :=
  Scalar.ofInt (state.moments.count - state.options.ddof)

def value? (state : CovarianceState ε α) : Option α :=
  if state.isAdmitted then some (state.moments.comoment / state.divisor) else none

end CovarianceState

variable {ε α : Type} [Element ε] [Scalar α]

def covarianceScaled (scale : Int) (options : VarianceOptions) (x y : Sequence ε) :
    Except Error (Option α) := do
  let state ← (CovarianceState.empty options scale).consume x y
  return state.value?

def covariance (options : VarianceOptions) (x y : Sequence ε) : Except Error (Option α) :=
  covarianceScaled 0 options x y

def variance (options : VarianceOptions) (values : Sequence ε) : Except Error (Option α) :=
  covarianceScaled 0 options values values

end Comoment
