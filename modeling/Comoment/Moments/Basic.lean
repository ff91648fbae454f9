import Comoment.Scalar
import Comoment.Summation

/-!
Moments of pairs of numbers: how many there are, their two means, and the sum of the products of
their deviations from those means. Moments of disjoint sets of pairs merge into the moments of the
union, and the moments of no pairs are neutral.
-/

namespace Comoment

/-- Count, means and centered products of a set of pairs. -/
structure Moments (α : Type) where
  count : Int
  meanX : α
  meanY : α
  /-- The sum over the pairs of the product of both deviations, not divided by the count. -/
  comoment : α
  deriving BEq

namespace Moments

variable {α : Type} [Scalar α]

def empty : Moments α := ⟨0, 0, 0, 0⟩

def isEmpty (moments : Moments α) : Bool := moments.count == 0

/-- The moments of two disjoint sets of pairs. Each side adds its count times the product of the
shifts of its means. -/
def merge (first second : Moments α) : Moments α :=
  if second.count = 0 then first
  else if first.count = 0 then second
  else
    let count := first.count + second.count
    let weight₁ : α := Scalar.ofInt first.count
    let weight₂ : α := Scalar.ofInt second.count
    let total : α := Scalar.ofInt count
    let meanX := (first.meanX * weight₁ + second.meanX * weight₂) / total
    let meanY := (first.meanY * weight₁ + second.meanY * weight₂) / total
    { count := count
      meanX := meanX
      meanY := meanY
      comoment := first.comoment +
        (second.comoment + weight₁ * (first.meanX - meanX) * (first.meanY - meanY) +
          weight₂ * (second.meanX - meanX) * (second.meanY - meanY)) }

/-- The moments of the paired slots of two sequences, in two traversals: sums for the means, then
the products of the deviations from them. -/
def twoPass {ε : Type} [Inhabited ε] (toScalar : ε → α) (x y : Sequence ε) : Moments α :=
  let count := Run.totalLength (pairedRuns x y)
  if count = 0 then empty
  else
    let size : α := Scalar.ofInt count
    let meanX := sumPaired x y (fun a _ => toScalar a) / size
    let meanY := sumPaired x y (fun _ b => toScalar b) / size
    { count := count
      meanX := meanX
      meanY := meanY
      comoment := sumPaired x y fun a b => (toScalar a - meanX) * (toScalar b - meanY) }

end Moments

structure Spread (α : Type) where
  count : Int
  mean : α
  squares : α

/-- The sum of squared deviations of two disjoint sets from their common mean. -/
def Spread.mergedSquares {α : Type} [Scalar α] (first second : Spread α) : α :=
  if second.count = 0 then first.squares
  else if first.count = 0 then second.squares
  else
    let weight₁ : α := Scalar.ofInt first.count
    let weight₂ : α := Scalar.ofInt second.count
    let mean := (first.mean * weight₁ + second.mean * weight₂) / (weight₁ + weight₂)
    first.squares + second.squares + weight₁ * (first.mean - mean) * (first.mean - mean) +
      weight₂ * (second.mean - mean) * (second.mean - mean)

end Comoment
