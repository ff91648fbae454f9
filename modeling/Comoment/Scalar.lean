/-!
The arithmetic that accumulations are written in. Nothing here assumes a law, so that one
definition runs in double precision, can be read as exact rational arithmetic, and can be read as
the expression it evaluates.
-/

namespace Comoment

/-- The power `base ^ exponent` for an exponent of at least one, times `product`. Each step squares
the base and takes the low bit of the exponent. -/
def powerTimes {α : Type} [Mul α] (product base : α) (exponent : Nat) : α :=
  if exponent ≤ 1 then product
  else
    let base := base * base
    let exponent := exponent / 2
    powerTimes (if exponent % 2 = 1 then product * base else product) base exponent
termination_by exponent
decreasing_by omega

/-- The power `base ^ exponent` by repeated squaring. Even exponents square the base first, so that
the product starts at the lowest set bit of the exponent. -/
def powerBySquaring {α : Type} [Mul α] (one base : α) (exponent : Nat) : α :=
  if exponent = 0 then one
  else if exponent % 2 = 0 then powerBySquaring one (base * base) (exponent / 2)
  else powerTimes base base exponent
termination_by exponent
decreasing_by omega

class Scalar (α : Type) extends Zero α, Add α, Sub α, Mul α, Div α where
  /-- The number nearest to an integer. -/
  ofInt : Int → α
  ofSingle : Float32 → α
  ofDouble : Float → α
  /-- The power of ten with the given exponent, which may be negative. -/
  tenPower : Int → α

class SquareRoot (α : Type) where
  sqrt : α → α

instance : Scalar Float where
  zero := 0.0
  add := Float.add
  sub := Float.sub
  mul := Float.mul
  div := Float.div
  ofInt := Float.ofInt
  ofSingle := Float32.toFloat
  ofDouble := id
  -- a negative power is one of the tenth, which is rounded before it is multiplied
  tenPower exponent :=
    powerBySquaring 1.0 (if exponent < 0 then 1.0 / 10.0 else 10.0) exponent.natAbs

instance : SquareRoot Float where
  sqrt := Float.sqrt

end Comoment
