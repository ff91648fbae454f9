import Comoment.Covariance

/-!
Correlation over any number of chunks. Beside the covariance the state keeps the sum of squared
deviations of each operand. They are taken from the means of a single chunk, so a state absorbs one
chunk at most, and chunks are joined by merging states.
-/

namespace Comoment

structure CorrelationState (ε α : Type) where
  covariance : CovarianceState ε α
  squaresX : α
  squaresY : α
  /-- Whether a chunk was absorbed, directly or by merging. -/
  consumed : Bool

namespace CorrelationState

variable {ε α : Type} [Element ε] [Scalar α]

def empty (options : VarianceOptions) (decimalScale : Int) : CorrelationState ε α where
  covariance := CovarianceState.empty options decimalScale
  squaresX := 0
  squaresY := 0
  consumed := false

def squaredDeviation (scale : Int) (mean : α) (value : ε) : α :=
  let deviation := Element.toScalar scale value - mean
  deviation * deviation

/-- Acts on the covariance of the state at hand, where it also leaves what a refusal leaves. -/
def onCovariance (action : EStateM Error (CovarianceState ε α) Unit) :
    EStateM Error (CorrelationState ε α) Unit := fun state =>
  match action.run state.covariance with
  | .ok _ covariance => .ok () { state with covariance }
  | .error refusal covariance => .error refusal { state with covariance }

def absorb (x y : Sequence ε) : EStateM Error (CorrelationState ε α) Unit := do
  let state ← get
  if state.consumed || state.covariance.moments.count != 0 then
    throw .alreadyConsumed
  onCovariance (CovarianceState.absorb x y)
  modify fun state => { state with consumed := true }
  let covariance := (← get).covariance
  let moments := covariance.moments
  if 0 < moments.count then
    let scale := covariance.decimalScale
    modify fun state =>
      { state with
        squaresX := sumPaired x y fun a _ => squaredDeviation scale moments.meanX a
        squaresY := sumPaired x y fun _ b => squaredDeviation scale moments.meanY b }

def consume (state : CorrelationState ε α) (x y : Sequence ε) :
    Except Error (CorrelationState ε α) :=
  outcomeOf (absorb x y) state

def spreadX (state : CorrelationState ε α) : Spread α :=
  ⟨state.covariance.moments.count, state.covariance.moments.meanX, state.squaresX⟩

def spreadY (state : CorrelationState ε α) : Spread α :=
  ⟨state.covariance.moments.count, state.covariance.moments.meanY, state.squaresY⟩

/-- The state of the chunks of both; options and scale are those of the first. -/
def merge (first second : CorrelationState ε α) : CorrelationState ε α where
  covariance := first.covariance.merge second.covariance
  squaresX := first.spreadX.mergedSquares second.spreadX
  squaresY := first.spreadY.mergedSquares second.spreadY
  consumed := first.consumed || second.consumed

def value? [SquareRoot α] (state : CorrelationState ε α) : Option α :=
  if state.covariance.isAdmitted then
    let divisor := state.covariance.divisor
    let deviationX := SquareRoot.sqrt (state.squaresX / divisor)
    let deviationY := SquareRoot.sqrt (state.squaresY / divisor)
    some (state.covariance.moments.comoment / divisor / (deviationX * deviationY))
  else none

end CorrelationState

variable {ε α : Type} [Element ε] [Scalar α] [SquareRoot α]

def correlationScaled (scale : Int) (options : VarianceOptions) (x y : Sequence ε) :
    Except Error (Option α) := do
  let state ← (CorrelationState.empty options scale).consume x y
  return state.value?

def correlation (options : VarianceOptions) (x y : Sequence ε) : Except Error (Option α) :=
  correlationScaled 0 options x y

end Comoment
