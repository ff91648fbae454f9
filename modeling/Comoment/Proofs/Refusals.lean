import Comoment.Correlation
import Comoment.Proofs.Registers

/-!
What states absorb and refuse. Absorbing changes a state in place. Whether the chunk is refused is
decided before the first change, so that a refused chunk leaves the state as it was.
-/

namespace Comoment

variable {ε α : Type} [Element ε] [Scalar α]

namespace CovarianceState

theorem absorb_misaligned (state : CovarianceState ε α) {x y : Sequence ε}
    (misaligned : x.length ≠ y.length) :
    (absorb x y).run state = .error (.lengthMismatch x.length y.length) state := by
  unfold absorb
  rw [if_pos misaligned]
  rfl

theorem absorb_aligned (state : CovarianceState ε α) {x y : Sequence ε}
    (aligned : x.length = y.length) :
    (absorb x y).run state =
      let chunkValid := decide (x.nullCount = 0) && decide (y.nullCount = 0)
      let moments :=
        if chunkValid || state.options.skipNulls then
          state.moments.merge (Element.moments state.decimalScale x y)
        else state.moments
      .ok () { state with moments := moments, allValid := state.allValid && chunkValid } := by
  unfold absorb
  simp only [ne_eq, aligned, not_true_eq_false, if_false, EStateM.run_bind, EStateM.run_modify,
    EStateM.run_get]
  split
  · rfl
  · rfl

theorem consume_eq (state : CovarianceState ε α) (x y : Sequence ε) :
    state.consume x y =
      if x.length = y.length then
        let chunkValid := decide (x.nullCount = 0) && decide (y.nullCount = 0)
        let moments :=
          if chunkValid || state.options.skipNulls then
            state.moments.merge (Element.moments state.decimalScale x y)
          else state.moments
        .ok { state with moments := moments, allValid := state.allValid && chunkValid }
      else .error (.lengthMismatch x.length y.length) := by
  unfold consume outcomeOf
  by_cases aligned : x.length = y.length
  · rw [if_pos aligned, state.absorb_aligned aligned]
  · rw [if_neg aligned, state.absorb_misaligned aligned]

theorem absorb_keeps (x y : Sequence ε) :
    KeepsState (absorb x y : EStateM Error (CovarianceState ε α) Unit) := by
  intro state refusal left refused
  by_cases aligned : x.length = y.length
  · rw [state.absorb_aligned aligned] at refused
    cases refused
  · rw [state.absorb_misaligned aligned] at refused
    cases refused
    rfl

def machine : Machine ε (CovarianceState ε α) where
  empty := empty
  absorb chunk := absorb chunk.x chunk.y
  merge := merge
  keeps chunk := absorb_keeps chunk.x chunk.y

theorem machine_consume (state : CovarianceState ε α) (chunk : Chunk ε) :
    machine.consume state chunk = state.consume chunk.x chunk.y := rfl

end CovarianceState

namespace CorrelationState

def holding (state : CorrelationState ε α) (covariance : CovarianceState ε α) (x y : Sequence ε) :
    CorrelationState ε α :=
  let moments := covariance.moments
  let scale := covariance.decimalScale
  if 0 < moments.count then
    { covariance := covariance
      squaresX := sumPaired x y fun a _ => squaredDeviation scale moments.meanX a
      squaresY := sumPaired x y fun _ b => squaredDeviation scale moments.meanY b
      consumed := true }
  else { state with covariance := covariance, consumed := true }

theorem absorb_used {state : CorrelationState ε α}
    (used : (state.consumed || state.covariance.moments.count != 0) = true) (x y : Sequence ε) :
    (absorb x y).run state = .error .alreadyConsumed state := by
  unfold absorb
  simp only [EStateM.run_bind, EStateM.run_get, used, if_true]
  rfl

theorem absorb_idle {state : CorrelationState ε α}
    (idle : (state.consumed || state.covariance.moments.count != 0) = false) (x y : Sequence ε) :
    (absorb x y).run state =
      match (CovarianceState.absorb x y).run state.covariance with
      | .ok _ covariance => .ok () (state.holding covariance x y)
      | .error refusal covariance => .error refusal { state with covariance } := by
  have inPlace : (onCovariance (CovarianceState.absorb x y)).run state =
      match (CovarianceState.absorb x y).run state.covariance with
      | .ok _ covariance => .ok () { state with covariance }
      | .error refusal covariance => .error refusal { state with covariance } := rfl
  unfold absorb
  simp only [EStateM.run_bind, EStateM.run_get, idle, Bool.false_eq_true, if_false, inPlace]
  cases (CovarianceState.absorb x y).run state.covariance with
  | error refusal covariance => rfl
  | ok _ covariance =>
    simp only [EStateM.run_modify, holding]
    split
    · rfl
    · rfl

theorem consume_eq (state : CorrelationState ε α) (x y : Sequence ε) :
    state.consume x y =
      if state.consumed || state.covariance.moments.count != 0 then .error .alreadyConsumed
      else (state.covariance.consume x y).map fun covariance => state.holding covariance x y := by
  unfold consume outcomeOf
  cases used : state.consumed || state.covariance.moments.count != 0 with
  | true =>
    rw [absorb_used used]
    rfl
  | false =>
    rw [absorb_idle used, CovarianceState.consume, outcomeOf]
    cases (CovarianceState.absorb x y).run state.covariance <;> rfl

theorem absorb_keeps (x y : Sequence ε) :
    KeepsState (absorb x y : EStateM Error (CorrelationState ε α) Unit) := by
  intro state refusal left refused
  cases used : state.consumed || state.covariance.moments.count != 0 with
  | true =>
    rw [absorb_used used] at refused
    cases refused
    rfl
  | false =>
    rw [absorb_idle used] at refused
    cases absorbed : (CovarianceState.absorb x y).run state.covariance with
    | ok _ covariance =>
      rw [absorbed] at refused
      cases refused
    | error cause covariance =>
      have kept : covariance = state.covariance :=
        CovarianceState.absorb_keeps x y state.covariance cause covariance absorbed
      rw [absorbed, kept] at refused
      cases refused
      rfl

def machine : Machine ε (CorrelationState ε α) where
  empty := empty
  absorb chunk := absorb chunk.x chunk.y
  merge := merge
  keeps chunk := absorb_keeps chunk.x chunk.y

theorem machine_consume (state : CorrelationState ε α) (chunk : Chunk ε) :
    machine.consume state chunk = state.consume chunk.x chunk.y := rfl

end CorrelationState

end Comoment
