import Comoment.Element
import Comoment.Moments.Basic

/-!
Moments of integer pairs from exact sums. A chunk of slots is summed in integers alone; when its
moments are read, the product of the two sums is divided by the count in integers, so that only
numbers of the size of the moments are rounded. Narrow elements are accumulated in this way, in
chunks as long as their width allows, and all other elements in two traversals.
-/

namespace Comoment

structure ExactSums where
  count : Nat
  sumX : Int
  sumY : Int
  sumXY : Int
  deriving DecidableEq, Repr, Inhabited

namespace ExactSums

def empty : ExactSums := ⟨0, 0, 0, 0⟩

def add (sums : ExactSums) (x y : Int) : ExactSums where
  count := sums.count + 1
  sumX := sums.sumX + x
  sumY := sums.sumY + y
  sumXY := sums.sumXY + x * y

variable {α : Type} [Scalar α]

def meanX (sums : ExactSums) : α := Scalar.ofInt sums.sumX / Scalar.ofInt sums.count

def meanY (sums : ExactSums) : α := Scalar.ofInt sums.sumY / Scalar.ofInt sums.count

def quotient (sums : ExactSums) : Int := (sums.sumX * sums.sumY).tdiv sums.count

def remainder (sums : ExactSums) : Int := (sums.sumX * sums.sumY).tmod sums.count

/-- The sum of centered products, `sumXY - sumX * sumY / count`. -/
def comoment (sums : ExactSums) : α :=
  if sums.count = 0 then 0
  else
    Scalar.ofInt (sums.sumXY - sums.quotient) -
      Scalar.ofInt sums.remainder / Scalar.ofInt sums.count

def moments (sums : ExactSums) : Moments α :=
  if sums.count = 0 then Moments.empty
  else ⟨sums.count, sums.meanX, sums.meanY, sums.comoment⟩

def ofRuns {ε : Type} [Inhabited ε] (toInt : ε → Int) (x y : Sequence ε) (runs : List Run) :
    ExactSums :=
  (runs.flatMap Run.slots).foldl
    (fun sums index => sums.add (toInt (x.value index)) (toInt (y.value index))) empty

end ExactSums

namespace Moments

variable {ε α : Type} [Inhabited ε] [Scalar α]

/-- Merges the moments of the chunks from `start` on into `moments`. All chunks but the last have
`bound` slots, or one when the bound is zero. -/
def mergeChunks (toInt : ε → Int) (bound : Nat) (x y : Sequence ε) (start : Nat)
    (moments : Moments α) : Moments α :=
  let stop := min x.length y.length
  if start < stop then
    let span := min (max bound 1) (stop - start)
    let chunk := ExactSums.ofRuns toInt x y (pairedRunsIn x y start span)
    mergeChunks toInt bound x y (start + span)
      (if chunk.count = 0 then moments else moments.merge chunk.moments)
  else moments
termination_by min x.length y.length - start

def exact (toInt : ε → Int) (bound : Nat) (x y : Sequence ε) : Moments α :=
  mergeChunks toInt bound x y 0 empty

end Moments

def Element.moments {ε α : Type} [Element ε] [Scalar α] (scale : Int) (x y : Sequence ε) :
    Moments α :=
  match Element.reading (ε := ε) with
  | .narrow bitWidth toInt _ _ => Moments.exact toInt (chunkBound bitWidth) x y
  | .wide quantity => Moments.twoPass (fun value => (quantity value).toScalar scale) x y

end Comoment
