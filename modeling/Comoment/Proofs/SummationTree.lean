import Comoment.Summation

/-!
The expression that a sum evaluates: a tree of additions over the terms of slots and zeros. Every
sum over runs is the value of one tree, whatever its numbers are. The cascade never moves a term
past another one, so the tree has the slots of the runs in order, each once.
-/

namespace Comoment

inductive SumTree where
  | zero
  /-- The term of a slot. -/
  | term (slot : Nat)
  | add (left right : SumTree)
  deriving DecidableEq, Repr

namespace SumTree

instance : Zero SumTree := ⟨zero⟩

instance : Add SumTree := ⟨add⟩

def terms : SumTree → List Nat
  | zero => []
  | term slot => [slot]
  | add left right => left.terms ++ right.terms

def eval {α : Type} [Zero α] [Add α] (value : Nat → α) : SumTree → α
  | zero => 0
  | term slot => value slot
  | add left right => left.eval value + right.eval value

def ofRuns (runs : List Run) : SumTree := sumRuns runs term

theorem terms_zero : (0 : SumTree).terms = [] := rfl

theorem terms_add (left right : SumTree) :
    (left + right).terms = left.terms ++ right.terms := rfl

end SumTree

namespace Cascade

section Levels

variable {α : Type} [Zero α]

theorem sum_at_past_levels (cascade : Cascade α) {level : Nat} (past : levelCount ≤ level) :
    cascade.sumAt level = 0 := by
  unfold sumAt
  rw [Array.getD_eq_getD_getElem?, Array.getElem?_eq_none (by simpa using past)]
  rfl

theorem sum_at_set (cascade : Cascade α) (mask root level : Nat) (bound : level < levelCount)
    (sum : α) (other : Nat) :
    (⟨cascade.sums.set level sum, mask, root⟩ : Cascade α).sumAt other =
      if other = level then sum else cascade.sumAt other := by
  unfold sumAt
  simp only [Vector.toArray_set, Array.getD_eq_getD_getElem?, Array.getElem?_set]
  by_cases same : level = other
  · subst same
    simp
  · have different : ¬other = level := fun equal => same equal.symm
    simp [same, different]

theorem sum_at_eq (cascade : Cascade α) (level : Nat) (bound : level < levelCount) :
    cascade.sumAt level = cascade.sums[level] := by
  unfold sumAt
  simp [Array.getD_eq_getD_getElem?, bound]

theorem sum_at_empty (level : Nat) : (empty : Cascade α).sumAt level = 0 := by
  simp only [sumAt, empty, Vector.toArray_replicate, Array.getD_eq_getD_getElem?,
    Array.getElem?_replicate]
  split <;> rfl

end Levels

section Carry

variable {α : Type} [Zero α] [Add α] (cascade : Cascade α) (level : Nat)
  (bound : level < levelCount) (sum : α)

theorem add_at_carry
    (carry : (cascade.mask ^^^ (1 <<< level)).testBit level = false ∧ level + 1 < levelCount) :
    cascade.addAt level bound sum =
      addAt ⟨cascade.sums.set level 0, cascade.mask ^^^ (1 <<< level), cascade.root⟩ (level + 1)
        carry.2 (cascade.sums[level] + sum) := by
  rw [addAt]
  exact dif_pos carry

theorem add_at_stop
    (stopped :
      ¬((cascade.mask ^^^ (1 <<< level)).testBit level = false ∧ level + 1 < levelCount)) :
    cascade.addAt level bound sum =
      ⟨cascade.sums.set level (cascade.sums[level] + sum), cascade.mask ^^^ (1 <<< level),
        max cascade.root level⟩ := by
  rw [addAt]
  exact dif_neg stopped

end Carry

section Evaluation

variable {α : Type} [Zero α] [Add α] (value : Nat → α)

/-- The cascade in which every pending tree is replaced by its value. -/
def evaluate (cascade : Cascade SumTree) : Cascade α :=
  ⟨cascade.sums.map (SumTree.eval value), cascade.mask, cascade.root⟩

theorem sum_at_evaluate (cascade : Cascade SumTree) (level : Nat) :
    (cascade.evaluate value).sumAt level = (cascade.sumAt level).eval value := by
  by_cases bound : level < levelCount
  · rw [sum_at_eq _ level bound, sum_at_eq _ level bound]
    exact Vector.getElem_map _ _
  · have past := Nat.le_of_not_lt bound
    rw [sum_at_past_levels _ past, sum_at_past_levels _ past]
    rfl

theorem evaluate_empty : (empty : Cascade SumTree).evaluate value = empty := by
  unfold evaluate empty
  rw [Vector.map_replicate]
  rfl

theorem evaluate_set (cascade : Cascade SumTree) (mask root level : Nat)
    (bound : level < levelCount) (tree : SumTree) :
    (⟨cascade.sums.set level tree, mask, root⟩ : Cascade SumTree).evaluate value =
      ⟨(cascade.evaluate value).sums.set level (tree.eval value), mask, root⟩ := by
  unfold evaluate
  rw [Vector.map_set]

theorem evaluate_level (cascade : Cascade SumTree) (level : Nat) (bound : level < levelCount) :
    (cascade.evaluate value).sums[level] = cascade.sums[level].eval value := by
  rw [← sum_at_eq _ level bound, sum_at_evaluate, sum_at_eq _ level bound]

theorem evaluate_add_at (cascade : Cascade SumTree) (level : Nat) (bound : level < levelCount)
    (tree : SumTree) :
    (cascade.addAt level bound tree).evaluate value =
      (cascade.evaluate value).addAt level bound (tree.eval value) := by
  fun_induction addAt cascade level bound tree with
  | case1 cascade level bound tree total mask carry =>
    rename_i ih
    rw [ih, evaluate_set, add_at_carry (cascade.evaluate value) level bound _ carry,
      evaluate_level]
    rfl
  | case2 cascade level bound tree total mask stopped =>
    rw [evaluate_set, add_at_stop (cascade.evaluate value) level bound _ stopped, evaluate_level]
    rfl

theorem evaluate_add (cascade : Cascade SumTree) (tree : SumTree) :
    (cascade.add tree).evaluate value = (cascade.evaluate value).add (tree.eval value) :=
  cascade.evaluate_add_at value 0 (by decide) tree

theorem eval_block_sum (start length : Nat) :
    (blockSum SumTree.term start length).eval value = blockSum value start length := by
  unfold blockSum
  symm
  change List.foldl _ ((0 : SumTree).eval value) _ = _
  apply List.foldl_hom (SumTree.eval value)
  intro tree slot
  rfl

theorem evaluate_add_run (cascade : Cascade SumTree) (start length : Nat) :
    (cascade.addRun SumTree.term start length).evaluate value =
      (cascade.evaluate value).addRun value start length := by
  fun_induction addRun SumTree.term cascade start length with
  | case1 cascade start => rw [addRun, if_pos rfl]
  | case2 cascade start length nonempty block =>
    rename_i ih
    rw [ih, evaluate_add, eval_block_sum]
    symm
    rw [addRun, if_neg nonempty]

theorem eval_total (cascade : Cascade SumTree) :
    cascade.total.eval value = (cascade.evaluate value).total := by
  unfold total
  rw [sum_at_evaluate]
  symm
  apply List.foldl_hom (SumTree.eval value)
  intro tree level
  rw [sum_at_evaluate]
  rfl

end Evaluation

section Order

/-- The terms pending on the first `count` levels, from the highest of them to the lowest. -/
def termsBelow (cascade : Cascade SumTree) : Nat → List Nat
  | 0 => []
  | level + 1 => (cascade.sumAt level).terms ++ cascade.termsBelow level

/-- The terms entered so far are pending in order, older ones on higher levels, and nothing is
pending above the highest level reached. -/
structure InOrder (cascade : Cascade SumTree) (entered : List Nat) : Prop where
  pending : cascade.termsBelow levelCount = entered
  above_root : ∀ level, cascade.root < level → (cascade.sumAt level).terms = []

theorem terms_below_eq_nil {cascade : Cascade SumTree} {count : Nat}
    (none : ∀ level < count, (cascade.sumAt level).terms = []) :
    cascade.termsBelow count = [] := by
  induction count with
  | zero => rfl
  | succ count ih =>
    rw [termsBelow, none count (Nat.lt_succ_self count), List.nil_append]
    exact ih fun level below => none level (Nat.lt_succ_of_lt below)

/-- Levels without terms may be left out at the top. -/
theorem terms_below_of_le {cascade : Cascade SumTree} {count more : Nat} (fewer : count ≤ more)
    (none : ∀ level, count ≤ level → level < more → (cascade.sumAt level).terms = []) :
    cascade.termsBelow more = cascade.termsBelow count := by
  induction more with
  | zero => rw [Nat.le_zero.mp fewer]
  | succ more ih =>
    by_cases same : count = more + 1
    · rw [same]
    · rw [termsBelow, none more (by omega) (Nat.lt_succ_self more), List.nil_append]
      exact ih (by omega) fun level lower upper => none level lower (Nat.lt_succ_of_lt upper)

/-- Where nothing is pending below a level, its terms are the last ones, and writing the level
writes the end of the list. -/
theorem terms_below_set {cascade : Cascade SumTree} {level : Nat} (bound : level < levelCount)
    (below : ∀ other < level, (cascade.sumAt other).terms = []) :
    ∃ older, cascade.termsBelow levelCount = older ++ (cascade.sumAt level).terms ∧
      ∀ (tree : SumTree) (mask root : Nat),
        (⟨cascade.sums.set level tree, mask, root⟩ : Cascade SumTree).termsBelow levelCount =
          older ++ tree.terms := by
  have split : ∀ count, level < count →
      ∃ older, cascade.termsBelow count = older ++ (cascade.sumAt level).terms ∧
        ∀ (tree : SumTree) (mask root : Nat),
          (⟨cascade.sums.set level tree, mask, root⟩ : Cascade SumTree).termsBelow count =
            older ++ tree.terms := by
    intro count inside
    induction count with
    | zero => omega
    | succ count ih =>
      by_cases top : count = level
      · subst top
        refine ⟨[], ?_, ?_⟩
        · rw [termsBelow, terms_below_eq_nil below, List.append_nil, List.nil_append]
        · intro tree mask root
          rw [termsBelow, sum_at_set, if_pos rfl, List.nil_append, terms_below_eq_nil,
            List.append_nil]
          intro other lower
          rw [sum_at_set, if_neg (by omega)]
          exact below other lower
      · obtain ⟨older, before, written⟩ := ih (by omega)
        refine ⟨(cascade.sumAt count).terms ++ older, ?_, ?_⟩
        · rw [termsBelow, before, List.append_assoc]
        · intro tree mask root
          rw [termsBelow, sum_at_set, if_neg top, written, List.append_assoc]
  exact split levelCount bound

theorem empty_in_order : (empty : Cascade SumTree).InOrder [] := by
  have none : ∀ level, ((empty : Cascade SumTree).sumAt level).terms = [] := by
    intro level
    rw [sum_at_empty]
    rfl
  exact ⟨terms_below_eq_nil fun level _ => none level, fun level _ => none level⟩

namespace InOrder

theorem add_at {cascade : Cascade SumTree} {entered : List Nat} (ordered : cascade.InOrder entered)
    (level : Nat) (bound : level < levelCount)
    (below : ∀ other < level, (cascade.sumAt other).terms = []) (tree : SumTree) :
    (cascade.addAt level bound tree).InOrder (entered ++ tree.terms) := by
  fun_induction addAt cascade level bound tree generalizing entered with
  | case1 cascade level bound tree total mask carry =>
    rename_i ih
    obtain ⟨older, before, written⟩ := terms_below_set bound below
    have joined : entered ++ tree.terms = older ++ total.terms := by
      rw [← ordered.pending, before, sum_at_eq cascade level bound, List.append_assoc]
      rfl
    have emptied : (⟨cascade.sums.set level 0, mask, cascade.root⟩ : Cascade SumTree).InOrder
        older := by
      refine ⟨?_, ?_⟩
      · rw [written, SumTree.terms_zero, List.append_nil]
      · intro other above
        rw [sum_at_set]
        split
        · rfl
        · exact ordered.above_root other above
    rw [joined]
    apply ih emptied
    intro other lower
    rw [sum_at_set]
    split
    · rfl
    · exact below other (by omega)
  | case2 cascade level bound tree total mask =>
    obtain ⟨older, before, written⟩ := terms_below_set bound below
    refine ⟨?_, ?_⟩
    · rw [written, ← ordered.pending, before, sum_at_eq cascade level bound, List.append_assoc]
      rfl
    · intro other above
      have higher : max cascade.root level < other := above
      rw [sum_at_set, if_neg (by omega)]
      exact ordered.above_root other (by omega)

theorem add {cascade : Cascade SumTree} {entered : List Nat} (ordered : cascade.InOrder entered)
    (tree : SumTree) : (cascade.add tree).InOrder (entered ++ tree.terms) := by
  apply ordered.add_at 0 (by decide)
  intro other below
  omega

end InOrder

theorem terms_block_sum (start length : Nat) :
    (blockSum SumTree.term start length).terms = List.range' start length := by
  unfold blockSum
  induction length with
  | zero => rfl
  | succ length ih =>
    rw [List.range'_1_concat, List.foldl_append, List.foldl_cons, List.foldl_nil,
      SumTree.terms_add, ih]
    rfl

theorem InOrder.add_run {cascade : Cascade SumTree} {entered : List Nat}
    (ordered : cascade.InOrder entered) (start length : Nat) :
    (cascade.addRun SumTree.term start length).InOrder (entered ++ List.range' start length) := by
  fun_induction addRun SumTree.term cascade start length generalizing entered with
  | case1 => simpa using ordered
  | case2 cascade start length nonempty block =>
    rename_i ih
    have size : length = block + (length - block) := by omega
    have next := ih (ordered.add (blockSum SumTree.term start block))
    rwa [terms_block_sum, List.append_assoc, List.range'_append_1, ← size] at next

theorem terms_total (cascade : Cascade SumTree) :
    cascade.total.terms = cascade.termsBelow (cascade.root + 1) := by
  unfold total
  generalize cascade.root = root
  induction root with
  | zero => exact (List.append_nil _).symm
  | succ root ih =>
    rw [List.range'_1_concat, List.foldl_append, List.foldl_cons, List.foldl_nil,
      SumTree.terms_add, ih, Nat.add_comm 1 root]
    rfl

theorem InOrder.total_terms {cascade : Cascade SumTree} {entered : List Nat}
    (ordered : cascade.InOrder entered) : cascade.total.terms = entered := by
  rw [terms_total, ← ordered.pending]
  rcases Nat.le_total (cascade.root + 1) levelCount with below | above
  · symm
    exact terms_below_of_le below fun level lower _ => ordered.above_root level lower
  · apply terms_below_of_le above
    intro level lower _
    rw [sum_at_past_levels cascade lower]
    rfl

end Order

end Cascade

theorem sum_runs_eq_eval {α : Type} [Zero α] [Add α] (runs : List Run) (value : Nat → α) :
    sumRuns runs value = (SumTree.ofRuns runs).eval value := by
  unfold SumTree.ofRuns sumRuns
  rw [Cascade.eval_total, ← Cascade.evaluate_empty value]
  congr 1
  apply List.foldl_hom (Cascade.evaluate value)
  intro cascade run
  rw [Cascade.evaluate_add_run]

namespace SumTree

theorem terms_of_runs (runs : List Run) : (ofRuns runs).terms = runs.flatMap Run.slots := by
  have folded : ∀ (cascade : Cascade SumTree) (entered : List Nat), cascade.InOrder entered →
      (runs.foldl (fun cascade run => cascade.addRun term run.start run.length) cascade).InOrder
        (entered ++ runs.flatMap Run.slots) := by
    induction runs with
    | nil =>
      intro cascade entered ordered
      simpa using ordered
    | cons run runs ih =>
      intro cascade entered ordered
      rw [List.flatMap_cons, ← List.append_assoc]
      exact ih _ _ (ordered.add_run run.start run.length)
  exact (folded Cascade.empty [] Cascade.empty_in_order).total_terms

end SumTree

end Comoment
