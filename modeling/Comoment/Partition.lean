import Comoment.Correlation

/-!
Evaluation over a sequence that is split into chunks. Every chunk gets a state of its own, and the
states are joined from both halves of the list; a chunk that cannot be absorbed makes the whole
evaluation fail, the first such chunk in order.
-/

namespace Comoment

def joinAll {σ : Type} (empty : σ) (merge : σ → σ → σ) (states : List σ) : σ :=
  states.foldl merge empty

/-- Joins the two halves of a list of states, and then their results. -/
def joinHalves {σ : Type} (empty : σ) (merge : σ → σ → σ) (states : List σ) : σ :=
  if states.length < 2 then joinAll empty merge states
  else
    let half := states.length / 2
    merge (joinAll empty merge (states.take half)) (joinAll empty merge (states.drop half))

variable {ε α : Type} [Element ε] [Scalar α]

def covarianceOfChunks (options : VarianceOptions) (chunks : List (Sequence ε × Sequence ε)) :
    Except Error (Option α) := do
  let empty : CovarianceState ε α := .empty options 0
  let states ← chunks.mapM fun chunk => empty.consume chunk.1 chunk.2
  return (joinHalves empty CovarianceState.merge states).value?

def correlationOfChunks [SquareRoot α] (options : VarianceOptions)
    (chunks : List (Sequence ε × Sequence ε)) : Except Error (Option α) := do
  let empty : CorrelationState ε α := .empty options 0
  let states ← chunks.mapM fun chunk => empty.consume chunk.1 chunk.2
  return (joinHalves empty CorrelationState.merge states).value?

end Comoment
