import Comoment.DataType

/-!
Causes of failure and their wording. The first five are arguments that an operation refuses; the
last three are misuse of a type by its caller.
-/

namespace Comoment

inductive Error where
  /-- Two operands that pair slot by slot have different lengths. -/
  | lengthMismatch (x y : Nat)
  /-- A relative change reaches past the whole sequence. -/
  | periodsOutOfRange (periods : Int) (length : Nat)
  /-- A lag reaches past the whole sequence. -/
  | lagOutOfRange (lag : Int) (length : Nat)
  /-- No covariance is defined for the element type. -/
  | unsupportedType (type : DataType)
  | typeMismatch (x y : DataType)
  /-- A validity bitmap and the values it describes have different lengths. -/
  | validityLength (values validity : Nat)
  /-- A raw read outside the stored slots. -/
  | indexOutOfBounds (length index : Nat)
  /-- A correlation state that already holds a chunk is given another one. -/
  | alreadyConsumed
  deriving DecidableEq, Repr

namespace Error

def message : Error → String
  | lengthMismatch x y => s!"operand lengths must match: x has {x} slots, y has {y}"
  | periodsOutOfRange periods length =>
      s!"periods ({periods}) cannot be greater than the length of the sequence ({length})"
  | lagOutOfRange lag length =>
      s!"lag ({lag}) cannot be greater than the length of the sequence ({length})"
  | unsupportedType type => "no covariance implemented for " ++ type.name
  | typeMismatch x y => "operand types differ: " ++ x.name ++ " and " ++ y.name
  | validityLength _ _ => "validity must cover every value"
  | indexOutOfBounds length index =>
      s!"index out of bounds: the len is {length} but the index is {index}"
  | alreadyConsumed =>
      "correlation accumulator consumes once while empty, merge further chunks instead"

def isInvalidArgument : Error → Bool
  | lengthMismatch _ _ | periodsOutOfRange _ _ | lagOutOfRange _ _ | unsupportedType _
  | typeMismatch _ _ => true
  | validityLength _ _ | indexOutOfBounds _ _ | alreadyConsumed => false

end Error

/-- The state after an action, or why the action was refused. -/
def outcomeOf {σ : Type} (action : EStateM Error σ Unit) (state : σ) : Except Error σ :=
  match action.run state with
  | .ok _ next => .ok next
  | .error refusal _ => .error refusal

end Comoment
