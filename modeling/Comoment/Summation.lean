import Comoment.Sequence.Basic

/-!
Pairwise summation as a binary counter. A finished block enters on level zero; two sums that meet
on a level are added and carried to the level above, as a carry runs through a binary number. Bit
`level` of the mask tells whether that level holds a pending sum, so the mask counts the blocks.
Every run of slots starts a block of its own, and null slots are never read.
-/

namespace Comoment

def blockSize : Nat := 16

/-- The number of levels, one for every bit of a 64 bit count of blocks. -/
def levelCount : Nat := 64

/-- Pending sums of a pairwise summation. -/
structure Cascade (α : Type) where
  /-- The sum on each level, zero where none is pending. -/
  sums : Vector α levelCount
  /-- The levels that hold a pending sum, as the bits of a number. -/
  mask : Nat
  /-- The highest level reached so far. -/
  root : Nat

namespace Cascade

variable {α : Type} [Zero α] [Add α]

def empty : Cascade α where
  sums := Vector.replicate levelCount 0
  mask := 0
  root := 0

def sumAt (cascade : Cascade α) (level : Nat) : α := cascade.sums.toArray.getD level 0

/-- Adds a sum to a level and flips its bit. When the bit was already set, the level is emptied
into the one above; otherwise the addition ends there. -/
def addAt (cascade : Cascade α) (level : Nat) (bound : level < levelCount) (sum : α) :
    Cascade α :=
  let total := cascade.sums[level] + sum
  let mask := cascade.mask ^^^ (1 <<< level)
  if carry : mask.testBit level = false ∧ level + 1 < levelCount then
    addAt ⟨cascade.sums.set level 0, mask, cascade.root⟩ (level + 1) carry.2 total
  else ⟨cascade.sums.set level total, mask, max cascade.root level⟩
termination_by levelCount - level

def add (cascade : Cascade α) (blockSum : α) : Cascade α :=
  cascade.addAt 0 (by decide) blockSum

def blockSum (term : Nat → α) (start length : Nat) : α :=
  (List.range' start length).foldl (fun sum index => sum + term index) 0

/-- Adds the terms of a run, block by block from its start. -/
def addRun (term : Nat → α) (cascade : Cascade α) (start length : Nat) : Cascade α :=
  if length = 0 then cascade
  else
    let block := min blockSize length
    addRun term (cascade.add (blockSum term start block)) (start + block) (length - block)
termination_by length
decreasing_by simp only [blockSize]; omega

def total (cascade : Cascade α) : α :=
  (List.range' 1 cascade.root).foldl (fun sum level => cascade.sumAt level + sum)
    (cascade.sumAt 0)

end Cascade

variable {α : Type} [Zero α] [Add α]

def sumRuns (runs : List Run) (term : Nat → α) : α :=
  (runs.foldl (fun cascade run => cascade.addRun term run.start run.length) Cascade.empty).total

def sumValid {ε : Type} [Inhabited ε] (values : Sequence ε) (term : ε → α) : α :=
  sumRuns values.runs fun index => term (values.value index)

def sumPaired {ε δ : Type} [Inhabited ε] [Inhabited δ] (x : Sequence ε) (y : Sequence δ)
    (term : ε → δ → α) : α :=
  sumRuns (pairedRuns x y) fun index => term (x.value index) (y.value index)

end Comoment
