import Comoment.Proofs.SummationTree
import Mathlib.Data.Nat.Bitwise
import Mathlib.Data.Nat.Log

/-!
The cascade as a binary counter. The mask counts the blocks entered, and each set bit stands for a
balanced combination of as many consecutive blocks as the bit is worth, older blocks to the left.
The step is one carry: it is stated of the half-finished state, in which the levels below are
emptied and their bits flipped, and from it follows what holds after any number of blocks.
-/

namespace Comoment.Cascade

section Bits

variable {count level : Nat}

theorem test_bit_iff : count.testBit level = true ↔ count / 2 ^ level % 2 = 1 := by
  rw [Nat.testBit_eq_decide_div_mod_eq, decide_eq_true_iff]

theorem test_bit_false_iff : count.testBit level = false ↔ count / 2 ^ level % 2 = 0 := by
  rw [Nat.testBit_eq_decide_div_mod_eq, decide_eq_false_iff_not]
  omega

theorem next_quotient (count level : Nat) :
    count / 2 ^ (level + 1) = count / 2 ^ level / 2 := by
  rw [Nat.pow_succ, Nat.div_div_eq_div_mul]

theorem flip_bit (quotient level : Nat) :
    quotient * 2 ^ level ^^^ (1 <<< level) =
      (if quotient % 2 = 0 then quotient + 1 else quotient - 1) * 2 ^ level := by
  rw [← Nat.shiftLeft_eq, ← Nat.shiftLeft_xor_distrib, Nat.shiftLeft_eq]
  congr 1
  split
  · rename_i even
    exact Nat.xor_one_of_even (Nat.even_iff.mpr even)
  · rename_i odd
    exact Nat.xor_one_of_odd (Nat.odd_iff.mpr (by omega))

theorem multiple_bit (quotient level : Nat) :
    (quotient * 2 ^ level).testBit level = decide (quotient % 2 = 1) := by
  rw [Nat.testBit_mul_two_pow, decide_eq_true (Nat.le_refl level), Bool.true_and, Nat.sub_self,
    Nat.testBit_zero]

theorem flipped_bit (quotient level : Nat) :
    (quotient * 2 ^ level ^^^ (1 <<< level)).testBit level = decide (quotient % 2 = 0) := by
  rw [flip_bit, multiple_bit, decide_eq_decide]
  split <;> omega

/-- The blocks of the higher bits end where those of a set bit begin. -/
theorem first_of_odd (odd : count / 2 ^ level % 2 = 1) :
    count / 2 ^ level * 2 ^ level = count / 2 ^ (level + 1) * 2 ^ (level + 1) + 2 ^ level := by
  have halves : count / 2 ^ level = count / 2 ^ level / 2 * 2 + 1 := by omega
  rw [next_quotient, Nat.pow_succ, Nat.mul_comm (2 ^ level) 2, ← Nat.mul_assoc, ← Nat.succ_mul,
    ← Nat.add_one, ← halves]

theorem first_of_even (even : count / 2 ^ level % 2 = 0) :
    count / 2 ^ level * 2 ^ level = count / 2 ^ (level + 1) * 2 ^ (level + 1) := by
  have halves : count / 2 ^ level = count / 2 ^ level / 2 * 2 := by omega
  rw [next_quotient, Nat.pow_succ, Nat.mul_comm (2 ^ level) 2, ← Nat.mul_assoc, ← halves]

/-- Where the bits below a level are all set, one more carries into the level. -/
theorem succ_of_ones (ones : count % 2 ^ level = 2 ^ level - 1) :
    count + 1 = (count / 2 ^ level + 1) * 2 ^ level := by
  have positive := Nat.two_pow_pos level
  have parts := Nat.div_add_mod count (2 ^ level)
  rw [Nat.add_mul, Nat.one_mul, Nat.mul_comm]
  omega

theorem succ_quotient (ones : count % 2 ^ level = 2 ^ level - 1) :
    (count + 1) / 2 ^ level = count / 2 ^ level + 1 := by
  rw [succ_of_ones ones, Nat.mul_div_cancel _ (Nat.two_pow_pos level)]

/-- A carry that ends on a level changes nothing above it. -/
theorem succ_quotient_above (ones : count % 2 ^ level = 2 ^ level - 1)
    (even : count / 2 ^ level % 2 = 0) {other : Nat} (above : level < other) :
    (count + 1) / 2 ^ other = count / 2 ^ other := by
  have next : (count + 1) / 2 ^ (level + 1) = count / 2 ^ (level + 1) := by
    rw [next_quotient, next_quotient, succ_quotient ones]
    omega
  obtain ⟨rest, rfl⟩ : ∃ rest, other = level + 1 + rest := ⟨other - (level + 1), by omega⟩
  rw [Nat.pow_add, ← Nat.div_div_eq_div_mul, ← Nat.div_div_eq_div_mul, next]

theorem succ_bit_below (ones : count % 2 ^ level = 2 ^ level - 1) {other : Nat}
    (below : other < level) : (count + 1).testBit other = false := by
  rw [succ_of_ones ones, Nat.testBit_mul_two_pow, decide_eq_false (Nat.not_le.mpr below),
    Bool.false_and]

theorem log_of_quotient (some : count / 2 ^ level ≠ 0) :
    count.log2 = (count / 2 ^ level).log2 + level := by
  have positive := Nat.two_pow_pos level
  have nonzero : count ≠ 0 := by
    intro zero
    rw [zero, Nat.zero_div] at some
    exact some rfl
  rw [Nat.log2_eq_iff nonzero, Nat.pow_add, Nat.add_right_comm, Nat.pow_add]
  exact ⟨(Nat.le_div_iff_mul_le positive).mp (Nat.log2_self_le some),
    (Nat.div_lt_iff_lt_mul positive).mp Nat.lt_log2_self⟩

/-- The highest bit is the one that the carry reaches, or stays what it was. -/
theorem succ_log (ones : count % 2 ^ level = 2 ^ level - 1) (even : count / 2 ^ level % 2 = 0) :
    (count + 1).log2 = max count.log2 level := by
  have same := succ_quotient_above ones even (Nat.lt_add_one level)
  by_cases high : count / 2 ^ (level + 1) = 0
  · have zero : count / 2 ^ level = 0 := by
      rw [next_quotient] at high
      omega
    have power : count + 1 = 2 ^ level := by
      rw [succ_of_ones ones, zero, Nat.zero_add, Nat.one_mul]
    have lower : count.log2 ≤ level := by
      by_cases none : count = 0
      · rw [none, Nat.log2_zero]
        exact Nat.zero_le level
      · have bounded := (Nat.log2_lt none).mpr (by omega : count < 2 ^ level)
        exact Nat.le_of_lt bounded
    rw [power, Nat.log2_two_pow, Nat.max_eq_right lower]
  · have before := log_of_quotient high
    have after := log_of_quotient (same ▸ high)
    rw [same] at after
    omega

theorem ones_succ (ones : count % 2 ^ level = 2 ^ level - 1) (odd : count / 2 ^ level % 2 = 1) :
    count % 2 ^ (level + 1) = 2 ^ (level + 1) - 1 := by
  have positive := Nat.two_pow_pos level
  rw [Nat.pow_succ, Nat.mod_mul, ones, odd]
  omega

end Bits

variable {α : Type} [Zero α] [Add α]

/-- The sums of `2 ^ level` blocks from `first` on, combined in halves. The older half was waiting
on the level below, which was zero before it came. -/
def combined (blocks : Nat → α) : Nat → Nat → α
  | 0, first => blocks first
  | level + 1, first =>
      (0 + combined blocks level first) + combined blocks level (first + 2 ^ level)

/-- The sum on a level after `count` blocks: the blocks that its bit stands for come after those of
the higher bits. -/
def pendingSum (blocks : Nat → α) (count level : Nat) : α :=
  if count.testBit level then
    0 + combined blocks level (count / 2 ^ (level + 1) * 2 ^ (level + 1))
  else 0

structure Counts (blocks : Nat → α) (count : Nat) (cascade : Cascade α) : Prop where
  mask : cascade.mask = count
  pending : ∀ level < levelCount, cascade.sumAt level = pendingSum blocks count level
  root : cascade.root = count.log2

/-- The cascade while the block after `count` others is carried to a level: the sums below were
pending and are used up. -/
structure Carries (blocks : Nat → α) (count level : Nat) (cascade : Cascade α) : Prop where
  ones : count % 2 ^ level = 2 ^ level - 1
  mask : cascade.mask = count / 2 ^ level * 2 ^ level
  below : ∀ other < level, cascade.sumAt other = 0
  above : ∀ other, level ≤ other → other < levelCount →
    cascade.sumAt other = pendingSum blocks count other
  root : cascade.root = count.log2

theorem empty_counts (blocks : Nat → α) : Counts blocks 0 (empty : Cascade α) where
  mask := rfl
  pending level bound := by
    rw [sum_at_empty, pendingSum, Nat.zero_testBit]
    rfl
  root := Nat.log2_zero.symm

theorem Counts.carries {blocks : Nat → α} {count : Nat} {cascade : Cascade α}
    (counts : Counts blocks count cascade) : Carries blocks count 0 cascade where
  ones := Nat.mod_one count
  mask := by
    rw [counts.mask, Nat.pow_zero, Nat.div_one, Nat.mul_one]
  below other lower := absurd lower (Nat.not_lt_zero other)
  above other _ bound := counts.pending other bound
  root := counts.root

namespace Carries

variable {blocks : Nat → α} {count level : Nat} {cascade : Cascade α}

/-- The level was pending: it is used up, and the carry goes on. -/
theorem next (carries : Carries blocks count level cascade) (bound : level < levelCount)
    (odd : count / 2 ^ level % 2 = 1) :
    Carries blocks count (level + 1)
      ⟨cascade.sums.set level 0, cascade.mask ^^^ (1 <<< level), cascade.root⟩ where
  ones := ones_succ carries.ones odd
  mask := by
    have lower : count / 2 ^ level - 1 = count / 2 ^ level / 2 * 2 := by omega
    change cascade.mask ^^^ (1 <<< level) = _
    rw [carries.mask, flip_bit, if_neg (by omega), lower, next_quotient, Nat.pow_succ,
      Nat.mul_comm (2 ^ level) 2, Nat.mul_assoc]
  below other lower := by
    rw [sum_at_set]
    split
    · rfl
    · exact carries.below other (by omega)
  above other higher inside := by
    rw [sum_at_set, if_neg (by omega)]
    exact carries.above other (by omega) inside
  root := carries.root

theorem next_sum (carries : Carries blocks count level cascade) (bound : level < levelCount)
    (odd : count / 2 ^ level % 2 = 1) :
    cascade.sums[level] + combined blocks level (count / 2 ^ level * 2 ^ level) =
      combined blocks (level + 1) (count / 2 ^ (level + 1) * 2 ^ (level + 1)) := by
  rw [← sum_at_eq cascade level bound, carries.above level (Nat.le_refl level) bound, pendingSum,
    if_pos (test_bit_iff.mpr odd), first_of_odd odd]
  rfl

/-- The level was free: it takes the sum, and the carry ends. -/
theorem stop (carries : Carries blocks count level cascade) (bound : level < levelCount)
    (even : count / 2 ^ level % 2 = 0) :
    Counts blocks (count + 1)
      ⟨cascade.sums.set level
          (cascade.sums[level] + combined blocks level (count / 2 ^ level * 2 ^ level)),
        cascade.mask ^^^ (1 <<< level), max cascade.root level⟩ where
  mask := by
    change cascade.mask ^^^ (1 <<< level) = _
    rw [carries.mask, flip_bit, if_pos even, succ_of_ones carries.ones]
  pending other inside := by
    rw [sum_at_set]
    rcases Nat.lt_trichotomy other level with lower | same | higher
    · rw [if_neg (by omega), carries.below other lower, pendingSum,
        succ_bit_below carries.ones lower]
      rfl
    · subst same
      have free : cascade.sumAt other = 0 := by
        rw [carries.above other (Nat.le_refl other) bound, pendingSum, test_bit_false_iff.mpr even]
        rfl
      have set : (count + 1).testBit other = true := by
        rw [test_bit_iff, succ_quotient carries.ones]
        omega
      have first : (count + 1) / 2 ^ (other + 1) = count / 2 ^ (other + 1) :=
        succ_quotient_above carries.ones even (Nat.lt_add_one other)
      rw [if_pos rfl, ← sum_at_eq cascade other bound, free, pendingSum, if_pos set, first,
        first_of_even even]
    · have bit : (count + 1).testBit other = count.testBit other := by
        rw [Nat.testBit_eq_decide_div_mod_eq, Nat.testBit_eq_decide_div_mod_eq,
          succ_quotient_above carries.ones even higher]
      have first : (count + 1) / 2 ^ (other + 1) = count / 2 ^ (other + 1) :=
        succ_quotient_above carries.ones even (by omega)
      rw [if_neg (by omega), carries.above other (Nat.le_of_lt higher) inside, pendingSum,
        pendingSum, bit, first]
  root := by
    change max cascade.root level = _
    rw [carries.root, succ_log carries.ones even]

/-- A carry that leaves the highest level belongs to a block that the mask cannot count. -/
theorem higher_exists (carries : Carries blocks count level cascade) (bound : level < levelCount)
    (odd : count / 2 ^ level % 2 = 1) (small : count + 1 < 2 ^ levelCount) :
    level + 1 < levelCount := by
  apply Nat.lt_of_le_of_ne bound
  intro (top : level + 1 = levelCount)
  have some : 0 < count / 2 ^ level := by
    apply Nat.pos_of_ne_zero
    intro zero
    rw [zero] at odd
    exact absurd odd (by decide)
  have twice : 2 * 2 ^ level ≤ (count / 2 ^ level + 1) * 2 ^ level :=
    Nat.mul_le_mul_right _ (Nat.succ_le_succ some)
  have whole : 2 ^ levelCount = 2 * 2 ^ level := by rw [← top, Nat.pow_succ, Nat.mul_comm]
  rw [← succ_of_ones carries.ones] at twice
  omega

/-- From any point of the carry on, the block ends up counted. -/
theorem add_at {level : Nat} {cascade : Cascade α}
    (carries : Carries blocks count level cascade) (bound : level < levelCount)
    (small : count + 1 < 2 ^ levelCount) :
    Counts blocks (count + 1)
      (cascade.addAt level bound (combined blocks level (count / 2 ^ level * 2 ^ level))) := by
  have bit := flipped_bit (count / 2 ^ level) level
  rw [← carries.mask] at bit
  by_cases odd : count / 2 ^ level % 2 = 1
  · have higher := carries.higher_exists bound odd small
    have flipped : (cascade.mask ^^^ (1 <<< level)).testBit level = false := by
      rw [bit, decide_eq_false (by omega)]
    rw [add_at_carry cascade level bound _ ⟨flipped, higher⟩, carries.next_sum bound odd]
    exact (carries.next bound odd).add_at higher small
  · have even : count / 2 ^ level % 2 = 0 := by omega
    have flipped : (cascade.mask ^^^ (1 <<< level)).testBit level = true := by
      rw [bit, decide_eq_true even]
    rw [add_at_stop cascade level bound _ (by simp [flipped])]
    exact carries.stop bound even
termination_by levelCount - level

end Carries

theorem Counts.add {blocks : Nat → α} {count : Nat} {cascade : Cascade α}
    (counts : Counts blocks count cascade) (small : count + 1 < 2 ^ levelCount) :
    Counts blocks (count + 1) (cascade.add (blocks count)) := by
  have carried := counts.carries.add_at (by decide) small
  rwa [Nat.pow_zero, Nat.div_one, Nat.mul_one] at carried

theorem foldl_add_counts (blocks : Nat → α) (count : Nat) (small : count < 2 ^ levelCount) :
    Counts blocks count
      ((List.range count).foldl (fun cascade block => cascade.add (blocks block)) empty) := by
  induction count with
  | zero => exact empty_counts blocks
  | succ count ih =>
    rw [List.range_succ, List.foldl_append]
    exact (ih (Nat.lt_of_succ_lt small)).add small

end Comoment.Cascade
