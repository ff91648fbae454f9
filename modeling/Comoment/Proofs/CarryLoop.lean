import Comoment.Proofs.BinaryCounter
import Mathlib.Algebra.Ring.Int.Defs

/-!
The carry of the cascade without its guard. The guard keeps a carry on the levels that exist. For as
many blocks as the mask can count it decides nothing: a carry without it stops on the same level and
never leaves the highest one, because the levels are the bits of the count.
-/

namespace Comoment.Cascade

section Blocks

def blocksOf (count level : Nat) : List Nat :=
  if count.testBit level then List.range' (count / 2 ^ (level + 1) * 2 ^ (level + 1)) (2 ^ level)
  else []

theorem range_above (count level : Nat) :
    List.range (count / 2 ^ level * 2 ^ level) =
      List.range (count / 2 ^ (level + 1) * 2 ^ (level + 1)) ++ blocksOf count level := by
  unfold blocksOf
  cases bit : count.testBit level with
  | true =>
    rw [if_pos rfl, first_of_odd (test_bit_iff.mp bit), List.range_eq_range', List.range_eq_range',
      ← List.range'_append_1, Nat.zero_add]
  | false =>
    rw [first_of_even (test_bit_false_iff.mp bit)]
    exact (List.append_nil _).symm

theorem blocks_of_lower (count levels : Nat) :
    List.range (count / 2 ^ levels * 2 ^ levels) ++
        (List.range levels).reverse.flatMap (blocksOf count) = List.range count := by
  induction levels with
  | zero => simp
  | succ levels ih =>
    rw [List.range_succ, List.reverse_append, List.reverse_singleton, List.singleton_append,
      List.flatMap_cons, ← List.append_assoc, ← range_above, ih]

/-- From the highest level to the lowest, the bits stand for all blocks, each once. -/
theorem blocks_of_levels {count : Nat} (small : count < 2 ^ levelCount) :
    (List.range levelCount).reverse.flatMap (blocksOf count) = List.range count := by
  have blocks := blocks_of_lower count levelCount
  rwa [Nat.div_eq_of_lt small, Nat.zero_mul, List.range_zero, List.nil_append] at blocks

theorem combined_terms (level first : Nat) :
    (combined SumTree.term level first).terms = List.range' first (2 ^ level) := by
  induction level generalizing first with
  | zero => rfl
  | succ level ih =>
    rw [combined, SumTree.terms_add, SumTree.terms_add, SumTree.terms_zero, List.nil_append, ih, ih,
      List.range'_append_1, Nat.pow_succ, Nat.mul_two]

end Blocks

variable {α : Type} [Zero α] [Add α]

theorem combined_eq_eval (blocks : Nat → α) (level first : Nat) :
    combined blocks level first = (combined SumTree.term level first).eval blocks := by
  induction level generalizing first with
  | zero => rfl
  | succ level ih =>
    rw [combined, ih, ih]
    rfl

/-- The carry with no guard, which fails where it would look up a level that does not exist. -/
def addAtUnguarded (cascade : Cascade α) (level : Nat) (sum : α) : Option (Cascade α) :=
  if bound : level < levelCount then
    let total := cascade.sums[level] + sum
    let mask := cascade.mask ^^^ (1 <<< level)
    if mask.testBit level = false then
      addAtUnguarded ⟨cascade.sums.set level 0, mask, cascade.root⟩ (level + 1) total
    else some ⟨cascade.sums.set level total, mask, max cascade.root level⟩
  else none
termination_by levelCount - level

/-- Before every step of a carry the next level exists, so the guard is never what ends it. -/
theorem Carries.add_at_unguarded {blocks : Nat → α} {count level : Nat} {cascade : Cascade α}
    (carries : Carries blocks count level cascade) (bound : level < levelCount)
    (small : count + 1 < 2 ^ levelCount) (sum : α) :
    cascade.addAtUnguarded level sum = some (cascade.addAt level bound sum) := by
  have bit := flipped_bit (count / 2 ^ level) level
  rw [← carries.mask] at bit
  rw [addAtUnguarded, dif_pos bound]
  by_cases odd : count / 2 ^ level % 2 = 1
  · have higher := carries.higher_exists bound odd small
    have flipped : (cascade.mask ^^^ (1 <<< level)).testBit level = false := by
      rw [bit, decide_eq_false (by omega)]
    rw [add_at_carry cascade level bound sum ⟨flipped, higher⟩]
    dsimp only
    rw [if_pos flipped]
    exact (carries.next bound odd).add_at_unguarded higher small _
  · have flipped : (cascade.mask ^^^ (1 <<< level)).testBit level = true := by
      rw [bit, decide_eq_true (by omega)]
    rw [add_at_stop cascade level bound sum (by simp [flipped])]
    dsimp only
    rw [if_neg (by simp [flipped])]
termination_by levelCount - level

theorem foldl_m_unguarded (blocks : Nat → α) {count : Nat} (small : count < 2 ^ levelCount) :
    (List.range count).foldlM (fun cascade block => cascade.addAtUnguarded 0 (blocks block)) empty =
      some ((List.range count).foldl (fun cascade block => cascade.add (blocks block)) empty) := by
  induction count with
  | zero => rfl
  | succ count ih =>
    have counts := foldl_add_counts blocks count (Nat.lt_of_succ_lt small)
    have last := counts.carries.add_at_unguarded (by decide) small (blocks count)
    rw [List.range_succ, List.foldlM_append, ih (Nat.lt_of_succ_lt small), List.foldl_append,
      Option.bind_eq_bind, Option.bind_some, List.foldlM_cons, last]
    rfl

/-- After any number of blocks below two to the power 64 the mask is that number, and the highest
level is that of its highest bit. A level whose bit is clear holds zero, and any other the balanced
combination of the blocks that its bit stands for: a tree over consecutive blocks, where higher bits
stand for older ones and all bits for every block once. No carry needs its guard to end. -/
theorem cascade_counts_in_binary (blocks : Nat → α) {count : Nat} (small : count < 2 ^ 64) :
    let cascade := (List.range count).foldl (fun cascade block => cascade.add (blocks block)) empty
    cascade.mask = count ∧ cascade.root = count.log2 ∧
      (∀ level < levelCount, cascade.sumAt level =
        if count.testBit level then
          0 + combined blocks level (count / 2 ^ (level + 1) * 2 ^ (level + 1))
        else 0) ∧
      (∀ level first,
        combined blocks level first = (combined SumTree.term level first).eval blocks ∧
          (combined SumTree.term level first).terms = List.range' first (2 ^ level)) ∧
      (List.range levelCount).reverse.flatMap (blocksOf count) = List.range count ∧
      (List.range count).foldlM (fun cascade block => cascade.addAtUnguarded 0 (blocks block))
        empty = some cascade := by
  intro cascade
  have counts : Counts blocks count cascade := foldl_add_counts blocks count small
  refine ⟨counts.mask, counts.root, counts.pending, ?_, blocks_of_levels small,
    foldl_m_unguarded blocks small⟩
  intro level first
  exact ⟨combined_eq_eval blocks level first, combined_terms level first⟩

/-- Six blocks are four and two; the lowest level has nothing. -/
theorem cascade_counts_in_binary_six :
    let cascade := (List.range 6).foldl (fun cascade block => cascade.add ((block : Int) + 1)) empty
    6 < 2 ^ 64 ∧ cascade.mask = 6 ∧ cascade.root = 2 ∧ cascade.sumAt 0 = 0 ∧
      cascade.sumAt 1 = 5 + 6 ∧ cascade.sumAt 2 = 1 + 2 + 3 + 4 ∧ cascade.sumAt 3 = 0 := by
  intro cascade
  have small : 6 < 2 ^ 64 := by decide
  obtain ⟨mask, root, sums, _⟩ := cascade_counts_in_binary (fun block => (block : Int) + 1) small
  exact ⟨small, mask, root.trans (by decide), sums 0 (by decide), sums 1 (by decide),
    sums 2 (by decide), sums 3 (by decide)⟩

end Comoment.Cascade
