import Comoment.Proofs.BinaryCounter
import Comoment.Proofs.Summation
import Mathlib.Algebra.Ring.Int.Defs

/-!
How deep the terms of a pairwise sum lie. A run is cut into blocks, which are as many additions
deep as they are long. Every level of the cascade puts two more above what it combines, and the
collapse of the levels one for each level, so that the depth grows with the logarithm of the
number of blocks.
-/

namespace Comoment

namespace SumTree

def height : SumTree → Nat
  | zero | term _ => 0
  | add left right => max left.height right.height + 1

/-- The slots of the terms, each with the number of additions that its term lies under when the
tree lies under `above`. -/
def placed (above : Nat) : SumTree → List (Nat × Nat)
  | zero => []
  | term slot => [(slot, above)]
  | add left right => left.placed (above + 1) ++ right.placed (above + 1)

theorem height_zero : (0 : SumTree).height = 0 := rfl

theorem height_add (left right : SumTree) :
    (left + right).height = max left.height right.height + 1 := rfl

theorem placed_terms (tree : SumTree) (above : Nat) :
    (tree.placed above).map Prod.fst = tree.terms := by
  induction tree generalizing above with
  | zero => rfl
  | term slot => rfl
  | add left right leftTerms rightTerms =>
    rw [placed, List.map_append, leftTerms, rightTerms, terms]

theorem placed_le_height {tree : SumTree} {above : Nat} {place : Nat × Nat}
    (found : place ∈ tree.placed above) : place.2 ≤ above + tree.height := by
  induction tree generalizing above with
  | zero => simp [placed] at found
  | term slot =>
    rw [placed, List.mem_singleton] at found
    rw [found]
    exact Nat.le_add_right _ _
  | add left right leftLe rightLe =>
    rw [placed, List.mem_append] at found
    rw [height]
    rcases found with inLeft | inRight
    · have bounded := leftLe inLeft
      omega
    · have bounded := rightLe inRight
      omega

end SumTree

namespace Run

/-- The slots from `start` on in blocks, all but the last of them full. -/
def blocksFrom (start length : Nat) : List Run :=
  if length = 0 then []
  else
    let block := min blockSize length
    ⟨start, block⟩ :: blocksFrom (start + block) (length - block)
termination_by length
decreasing_by simp only [blockSize]; omega

def blocks (run : Run) : List Run := blocksFrom run.start run.length

theorem blocks_from_length (start length : Nat) :
    (blocksFrom start length).length = (length + 15) / 16 := by
  fun_induction blocksFrom start length with
  | case1 => rfl
  | case2 start length nonempty block =>
    rename_i ih
    rw [List.length_cons, ih]
    simp only [block, blockSize]
    omega

theorem blocks_from_bounded {start length : Nat} {block : Run}
    (found : block ∈ blocksFrom start length) : block.length ≤ blockSize := by
  fun_induction blocksFrom start length with
  | case1 => simp at found
  | case2 start length nonempty size =>
    rename_i ih
    rcases List.mem_cons.mp found with rfl | later
    · exact Nat.min_le_left _ _
    · exact ih later

end Run

def blockCount (runs : List Run) : Nat := (runs.map fun run => (run.length + 15) / 16).sum

theorem block_count_eq (runs : List Run) : blockCount runs = (runs.flatMap Run.blocks).length := by
  rw [List.length_flatMap, blockCount]
  congr 1
  apply List.map_congr_left
  intro run _
  exact (Run.blocks_from_length run.start run.length).symm

/-- A block has at least one slot. -/
theorem block_count_le (runs : List Run) : blockCount runs ≤ Run.totalLength runs := by
  induction runs with
  | nil => exact Nat.le_refl 0
  | cons run runs ih =>
    have total : Run.totalLength (run :: runs) = run.length + Run.totalLength runs := rfl
    rw [total, blockCount, List.map_cons, List.sum_cons]
    change _ + blockCount runs ≤ _
    omega

namespace Cascade

section Blocks

variable {α : Type} [Zero α] [Add α] (value : Nat → α)

def addBlock (cascade : Cascade α) (block : Run) : Cascade α :=
  cascade.add (blockSum value block.start block.length)

theorem add_run_eq_foldl (cascade : Cascade α) (start length : Nat) :
    cascade.addRun value start length =
      (Run.blocksFrom start length).foldl (addBlock value) cascade := by
  fun_induction addRun value cascade start length with
  | case1 cascade start => rw [Run.blocksFrom, if_pos rfl, List.foldl_nil]
  | case2 cascade start length nonempty block =>
    rename_i ih
    rw [ih]
    conv_rhs => rw [Run.blocksFrom, if_neg nonempty, List.foldl_cons]
    rfl

theorem sum_runs_eq_blocks (runs : List Run) :
    sumRuns runs value = ((runs.flatMap Run.blocks).foldl (addBlock value) empty).total := by
  rw [List.foldl_flatMap, sumRuns]
  simp only [add_run_eq_foldl]
  rfl

def nthBlockSum (blocks : List Run) (number : Nat) : α :=
  (blocks.map fun block => blockSum value block.start block.length).getD number 0

theorem blocks_counted (blocks : List Run) (small : blocks.length < 2 ^ levelCount) :
    Counts (nthBlockSum value blocks) blocks.length (blocks.foldl (addBlock value) empty) := by
  have counted := foldl_add_counts (nthBlockSum value blocks) blocks.length small
  have listed := Sequence.map_range_get_d
    (blocks.map fun block => blockSum value block.start block.length) 0
  rw [List.length_map] at listed
  change (List.range blocks.length).map (nthBlockSum value blocks) = _ at listed
  rw [← List.foldl_map, listed, List.foldl_map] at counted
  exact counted

end Blocks

section Height

theorem block_sum_height (start length : Nat) :
    (blockSum SumTree.term start length).height = length := by
  unfold blockSum
  induction length with
  | zero => rfl
  | succ length ih =>
    rw [List.range'_1_concat, List.foldl_append, List.foldl_cons, List.foldl_nil,
      SumTree.height_add, ih]
    exact congrArg Nat.succ (Nat.max_zero length)

variable {blocks : Nat → SumTree} (bounded : ∀ number, (blocks number).height ≤ blockSize)

include bounded

theorem combined_height (level first : Nat) :
    (combined blocks level first).height ≤ blockSize + 2 * level := by
  induction level generalizing first with
  | zero => exact bounded first
  | succ level ih =>
    have older := ih first
    have newer := ih (first + 2 ^ level)
    rw [combined, SumTree.height_add, SumTree.height_add, SumTree.height_zero]
    omega

theorem Counts.sum_at_height {count : Nat} {cascade : Cascade SumTree}
    (counts : Counts blocks count cascade) (level : Nat) :
    (cascade.sumAt level).height ≤ blockSize + 1 + 2 * level := by
  by_cases inside : level < levelCount
  · rw [counts.pending level inside, pendingSum]
    split
    · have below := combined_height bounded level (count / 2 ^ (level + 1) * 2 ^ (level + 1))
      rw [SumTree.height_add, SumTree.height_zero]
      omega
    · exact Nat.zero_le _
  · rw [sum_at_past_levels cascade (Nat.le_of_not_lt inside)]
    exact Nat.zero_le _

theorem Counts.total_height {count : Nat} {cascade : Cascade SumTree}
    (counts : Counts blocks count cascade) :
    cascade.total.height ≤ blockSize + 2 + 2 * count.log2 := by
  rw [← counts.root]
  unfold total
  induction cascade.root with
  | zero =>
    have lowest := counts.sum_at_height bounded 0
    exact Nat.le_succ_of_le lowest
  | succ root ih =>
    have highest := counts.sum_at_height bounded (1 + root)
    rw [List.range'_1_concat, List.foldl_append, List.foldl_cons, List.foldl_nil,
      SumTree.height_add]
    omega

end Height

end Cascade

namespace SumTree

open Cascade

/-- The terms of the slots are added once and in order, nothing is added where there are none, and
where a machine has a position for each slot, no term lies under more additions than a sum over so
many blocks allows. -/
structure Pairwise (tree : SumTree) (slots : List Nat) (blocks : Nat) : Prop where
  in_order : (tree.placed 0).map Prod.fst = slots
  nothing : slots = [] → tree = 0
  shallow : slots.length < 2 ^ 64 → ∀ place ∈ tree.placed 0, place.2 ≤ 18 + 2 * blocks.log2

theorem nth_block_height (runs : List Run) (number : Nat) :
    (nthBlockSum term (runs.flatMap Run.blocks) number).height ≤ blockSize := by
  unfold nthBlockSum
  by_cases inside : number < (runs.flatMap Run.blocks).length
  · obtain ⟨run, _, found⟩ := List.mem_flatMap.mp (List.getElem_mem inside)
    rw [List.getD_eq_getElem _ _ (by simpa using inside), List.getElem_map, block_sum_height]
    exact Run.blocks_from_bounded found
  · rw [List.getD_eq_default _ _ (by simpa using inside)]
    exact Nat.zero_le _

theorem height_of_runs {runs : List Run} (small : blockCount runs < 2 ^ levelCount) :
    (ofRuns runs).height ≤ 18 + 2 * (blockCount runs).log2 := by
  rw [block_count_eq] at small ⊢
  rw [ofRuns, sum_runs_eq_blocks]
  exact (blocks_counted term _ small).total_height (nth_block_height runs)

theorem of_runs_eq_zero {runs : List Run} (none : runs.flatMap Run.slots = []) :
    ofRuns runs = 0 := by
  have total := block_count_le runs
  rw [Run.total_length_eq, none, block_count_eq] at total
  have noBlocks : runs.flatMap Run.blocks = [] :=
    List.eq_nil_of_length_eq_zero (Nat.le_zero.mp total)
  rw [ofRuns, sum_runs_eq_blocks, noBlocks]
  exact sum_at_empty 0

/-- Every block has a slot, so the mask of the cascade can count them where the slots can be
counted. -/
theorem of_runs_pairwise (runs : List Run) :
    (ofRuns runs).Pairwise (runs.flatMap Run.slots) (blockCount runs) where
  in_order := by rw [placed_terms, terms_of_runs]
  nothing := of_runs_eq_zero
  shallow inMemory place found := by
    rw [← Run.total_length_eq] at inMemory
    have deepest := placed_le_height found
    rw [Nat.zero_add] at deepest
    exact Nat.le_trans deepest (height_of_runs (Nat.lt_of_le_of_lt (block_count_le runs) inMemory))

end SumTree

/-- Whatever numbers are added and however their additions round, the sum over a sequence is the
value of one tree of additions, and so is the sum over the paired slots of two. The trees have the
terms of the slots that count and are shallow, and where addition is exact, they have the value of
the plain sum. -/
theorem sums_add_terms_once_in_order {ε δ : Type} [Inhabited ε] [Inhabited δ] {x : Sequence ε}
    {y : Sequence δ} (xLawful : x.Lawful) (yLawful : y.Lawful) :
    let slots := (List.range x.length).filter x.isValid
    let paired := (List.range (min x.length y.length)).filter fun index =>
      x.isValid index && y.isValid index
    let tree := SumTree.ofRuns x.runs
    let pairedTree := SumTree.ofRuns (pairedRuns x y)
    tree.Pairwise slots (blockCount x.runs) ∧
      pairedTree.Pairwise paired (blockCount (pairedRuns x y)) ∧
      (∀ (α : Type) [Zero α] [Add α] (term : ε → α) (pairTerm : ε → δ → α),
        sumValid x term = tree.eval (fun index => term (x.value index)) ∧
          sumPaired x y pairTerm =
            pairedTree.eval fun index => pairTerm (x.value index) (y.value index)) ∧
      ∀ (M : Type) [AddMonoid M] (term : ε → M) (pairTerm : ε → δ → M),
        sumValid x term = (x.toOptions.reduceOption.map term).sum ∧
          sumPaired x y pairTerm = ((x.pairs y).map fun pair => pairTerm pair.1 pair.2).sum := by
  intro slots paired tree pairedTree
  have visited : x.runs.flatMap Run.slots = slots := xLawful.runs_slots
  have pairsVisited : (pairedRuns x y).flatMap Run.slots = paired := by
    rw [pairedRuns, paired_runs_in_slots xLawful yLawful, Nat.zero_add, Nat.min_self, Nat.sub_zero,
      ← List.range_eq_range']
    rfl
  refine ⟨?_, ?_, ?_, ?_⟩
  · rw [← visited]
    exact SumTree.of_runs_pairwise x.runs
  · rw [← pairsVisited]
    exact SumTree.of_runs_pairwise (pairedRuns x y)
  · intro α _ _ term pairTerm
    exact ⟨sum_runs_eq_eval _ _, sum_runs_eq_eval _ _⟩
  · intro M _ term pairTerm
    exact ⟨sum_valid_eq xLawful term, sum_paired_eq xLawful yLawful pairTerm⟩

/-- A null in the middle starts a new block, so two blocks are added; the third pair is dropped. -/
theorem sums_add_terms_once_in_order_gap :
    let x : Sequence Int := .ofOptions #[some 1, some 2, none, some 4, some 5]
    let y : Sequence Int := .ofOptions #[some 3, some 1, some 7, some 2]
    let places := (SumTree.ofRuns x.runs).placed 0
    x.Lawful ∧ y.Lawful ∧ blockCount x.runs = 2 ∧ places.map Prod.fst = [0, 1, 3, 4] ∧
      (∀ place ∈ places, place.2 ≤ 20) ∧
      sumPaired x y (fun a b => a * b) = 13 := by
  intro x y places
  have xLawful : x.Lawful := Sequence.of_options_lawful _
  have yLawful : y.Lawful := Sequence.of_options_lawful _
  have blocks : blockCount x.runs = 2 := by decide
  obtain ⟨pairwise, _, _, plain⟩ := sums_add_terms_once_in_order xLawful yLawful
  refine ⟨xLawful, yLawful, blocks, ?_, ?_, ?_⟩
  · exact pairwise.in_order.trans (by decide)
  · have shallow := pairwise.shallow (by decide)
    rwa [blocks] at shallow
  · rw [(plain Int id fun a b => a * b).2]
    decide

end Comoment
