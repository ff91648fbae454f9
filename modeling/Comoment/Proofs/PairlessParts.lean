import Comoment.Proofs.Absorption
import Comoment.Proofs.Pruning
import Comoment.Proofs.Tallies

/-!
Parts without pairs. A state, a chunk or a window that has no pair leaves no trace in the numbers
of what it is put together with, whatever scalars are computed with: nothing is added to a sum or
divided by a count that is zero. What may change are the marks, which tell of nulls and of chunks.
-/

namespace Comoment

variable {ε δ σ α β : Type}

/-- A state that a register holds after some program, and the ledger of what it absorbed. -/
structure Held [Element ε] (single : Bool) (machine : Machine ε σ) where
  program : List (Instruction ε)
  register : Nat
  ledger : Ledger
  state : σ
  ledger_held : ((Ledger.machine single).run program).registers register = some ledger
  state_held : (machine.run program).registers register = some state

namespace Held

variable [Element ε] {single : Bool} {machine : Machine ε σ}

/-- Whether a chunk that the state absorbed, directly or in states merged into it, added a pair. -/
def hasPairs (held : Held single machine) : Bool := decide (held.ledger.pairs ≠ 0)

theorem pairs_none (held : Held single machine) (none : held.hasPairs = false) :
    held.ledger.pairs = 0 := by
  simpa [hasPairs] using none

theorem related {Related : Ledger → σ → Prop}
    (simulation : Simulation (Ledger.machine single) machine Related)
    (held : Held single machine) : Related held.ledger held.state := by
  have matching := (simulation.run held.program).1 held.register
  rw [held.ledger_held, held.state_held] at matching
  cases matching with
  | some related => exact related

end Held

variable [Scalar α]

namespace CovarianceState

structure SameButMark (state other : CovarianceState ε α) : Prop where
  moments : state.moments = other.moments
  decimalScale : state.decimalScale = other.decimalScale
  options : state.options = other.options

theorem merge_reads (options : VarianceOptions) (decimalScale : Int) :
    Reduction.Reads (empty options decimalScale : CovarianceState ε α) merge
      (fun state => state.moments.Canonical) moments where
  empty_sound := Moments.empty_canonical
  merge_sound _ _ firstSound secondSound := firstSound.merge secondSound
  congr := by
    intro first first' second second' sameFirst sameSecond
    change first.moments.merge second.moments = first'.moments.merge second'.moments
    rw [sameFirst, sameSecond]
  empty_merge _ canonical := Moments.empty_merge canonical
  merge_empty state := Moments.merge_empty state.moments

variable [Element ε]

theorem consume_canonical {state next : CovarianceState ε α} (canonical : state.moments.Canonical)
    (chunk : Chunk ε) (absorbed : state.consume chunk.x chunk.y = .ok next) :
    next.moments.Canonical := by
  rw [consume_eq] at absorbed
  split at absorbed
  · cases absorbed
    change (if _ then _ else _ : Moments α).Canonical
    split
    · exact canonical.merge (Element.moments_canonical chunk.xLawful chunk.yLawful _)
    · exact canonical
  · cases absorbed

theorem canonical_simulation :
    Simulation (Ledger.machine false) (machine (ε := ε) (α := α))
      fun ledger state => state.Tallies ledger ∧ state.moments.Canonical :=
  tally_simulation.with_invariant (fun _ _ => Moments.empty_canonical)
    (fun _ chunk _ canonical absorbed => consume_canonical canonical chunk absorbed)
    fun _ _ firstCanonical secondCanonical => firstCanonical.merge secondCanonical

theorem held_moments (held : Held false (machine (ε := ε) (α := α)))
    (none : held.hasPairs = false) : held.state.moments = .empty := by
  obtain ⟨tallies, canonical⟩ := held.related canonical_simulation
  apply canonical.of_no_pairs
  rw [tallies.count, held.pairs_none none]
  rfl

end CovarianceState

namespace Spread

theorem merged_squares_of_none {first second : Spread α} (none : second.count = 0) :
    first.mergedSquares second = first.squares := if_pos none

theorem merged_squares_of_none_first {first second : Spread α} (none : first.count = 0)
    (some : second.count ≠ 0) : first.mergedSquares second = second.squares :=
  (if_neg some).trans (if_pos none)

end Spread

namespace CorrelationState

def figures (state : CorrelationState ε α) : Moments α × α × α :=
  (state.covariance.moments, state.squaresX, state.squaresY)

structure SameButMarks (state other : CorrelationState ε α) : Prop where
  covariance : state.covariance.SameButMark other.covariance
  squaresX : state.squaresX = other.squaresX
  squaresY : state.squaresY = other.squaresY

structure Sound (state : CorrelationState ε α) : Prop where
  canonical : state.covariance.moments.Canonical
  squares : state.covariance.moments.count = 0 → state.squaresX = 0 ∧ state.squaresY = 0

theorem Sound.figures_empty {state : CorrelationState ε α} (sound : state.Sound)
    (none : state.covariance.moments.count = 0) : state.figures = (.empty, 0, 0) := by
  obtain ⟨squaresX, squaresY⟩ := sound.squares none
  rw [figures, sound.canonical.of_no_pairs none, squaresX, squaresY]

theorem empty_sound (options : VarianceOptions) (decimalScale : Int) :
    (empty options decimalScale : CorrelationState ε α).Sound :=
  ⟨Moments.empty_canonical, fun _ => ⟨rfl, rfl⟩⟩

theorem Sound.merge {first second : CorrelationState ε α} (firstSound : first.Sound)
    (secondSound : second.Sound) : (first.merge second).Sound where
  canonical := firstSound.canonical.merge secondSound.canonical
  squares := by
    intro none
    have count := Moments.merge_count first.covariance.moments second.covariance.moments
    have firstCount := firstSound.canonical.count_nonneg
    have secondCount := secondSound.canonical.count_nonneg
    change (first.covariance.moments.merge second.covariance.moments).count = 0 at none
    have secondNone : second.covariance.moments.count = 0 := by omega
    obtain ⟨squaresX, squaresY⟩ := firstSound.squares (by omega)
    exact ⟨(Spread.merged_squares_of_none secondNone).trans squaresX,
      (Spread.merged_squares_of_none secondNone).trans squaresY⟩

theorem figures_merge_congr {first first' second second' : CorrelationState ε α}
    (sameFirst : first.figures = first'.figures) (sameSecond : second.figures = second'.figures) :
    (first.merge second).figures = (first'.merge second').figures := by
  simp only [figures, Prod.mk.injEq] at sameFirst sameSecond
  simp only [figures, merge, CovarianceState.merge, spreadX, spreadY, sameFirst, sameSecond]

theorem figures_empty_merge (options : VarianceOptions) (decimalScale : Int)
    {state : CorrelationState ε α} (sound : state.Sound) :
    ((empty options decimalScale).merge state).figures = state.figures := by
  have moments : (Moments.empty : Moments α).merge state.covariance.moments =
      state.covariance.moments := Moments.empty_merge sound.canonical
  by_cases none : state.covariance.moments.count = 0
  · rw [sound.figures_empty none]
    apply ((empty_sound options decimalScale).merge sound).figures_empty
    exact (congrArg Moments.count moments).trans none
  · have unused : (Moments.empty : Moments α).count = 0 := rfl
    rw [figures, figures, Prod.mk.injEq, Prod.mk.injEq]
    exact ⟨moments, Spread.merged_squares_of_none_first unused none,
      Spread.merged_squares_of_none_first unused none⟩

theorem merge_reads (options : VarianceOptions) (decimalScale : Int) :
    Reduction.Reads (empty options decimalScale : CorrelationState ε α) merge Sound figures where
  empty_sound := empty_sound options decimalScale
  merge_sound _ _ := Sound.merge
  congr := figures_merge_congr
  empty_merge _ := figures_empty_merge options decimalScale
  merge_empty state := congrArg figures (state.merge_empty options decimalScale)

variable [Element ε]

theorem consume_sound {state next : CorrelationState ε α} (sound : state.Sound) (chunk : Chunk ε)
    (absorbed : state.consume chunk.x chunk.y = .ok next) : next.Sound := by
  rw [consume_eq] at absorbed
  split at absorbed
  · cases absorbed
  · rename_i idle
    cases consumed : state.covariance.consume chunk.x chunk.y with
    | error refusal =>
      rw [consumed] at absorbed
      cases absorbed
    | ok covariance =>
      have canonical := CovarianceState.consume_canonical sound.canonical chunk consumed
      rw [consumed] at absorbed
      change Except.ok (if 0 < covariance.moments.count then _ else _) = _ at absorbed
      split at absorbed
      · rename_i some
        cases absorbed
        exact ⟨canonical, fun none => absurd none some.ne'⟩
      · -- a state that absorbs its chunk is without pairs before
        cases absorbed
        simp only [Bool.or_eq_true, bne_iff_ne, not_or, not_not] at idle
        exact ⟨canonical, fun _ => sound.squares idle.2⟩

theorem sound_simulation :
    Simulation (Ledger.machine true) (machine (ε := ε) (α := α))
      fun ledger state => state.Tallies ledger ∧ state.Sound :=
  tally_simulation.with_invariant empty_sound
    (fun _ chunk _ sound absorbed => consume_sound sound chunk absorbed) fun _ _ => Sound.merge

theorem held_figures (held : Held true (machine (ε := ε) (α := α)))
    (none : held.hasPairs = false) : held.state.figures = (.empty, 0, 0) := by
  obtain ⟨tallies, sound⟩ := held.related sound_simulation
  apply sound.figures_empty
  rw [tallies.covariance.count, held.pairs_none none]
  rfl

end CorrelationState

section Chunks

variable [Element ε]

/-- The chunk adds no pair under the options: no slot has a value on both sides, or there is a null
in strict mode. -/
def Chunk.IsPairless (chunk : Chunk ε) (options : VarianceOptions) : Prop :=
  chunk.x.pairCount chunk.y = 0 ∨
    options.skipNulls = false ∧ (none ∈ chunk.x.toOptions ∨ none ∈ chunk.y.toOptions)

namespace CovarianceState

/-- A pairless chunk changes at most the mark. -/
theorem consume_pairless {state next : CovarianceState ε α} {chunk : Chunk ε}
    (pairless : chunk.IsPairless state.options)
    (absorbed : state.consume chunk.x chunk.y = .ok next) : next.SameButMark state := by
  rw [consume_eq] at absorbed
  split at absorbed
  · cases absorbed
    refine ⟨?_, rfl, rfl⟩
    change (if _ then _ else _) = state.moments
    split
    · rename_i kept
      rw [pairs_kept_iff chunk.xLawful chunk.yLawful] at kept
      have none : chunk.x.pairCount chunk.y = 0 := by
        rcases pairless with none | ⟨strict, null⟩
        · exact none
        · rw [strict] at kept
          rcases kept with skipped | ⟨xValues, yValues⟩
          · cases skipped
          · exact absurd null (not_or.mpr ⟨xValues, yValues⟩)
      rw [Element.moments_of_no_pairs chunk.xLawful chunk.yLawful _ none, Moments.merge_empty]
    · rfl
  · cases absorbed

theorem mark_simulation :
    Simulation (machine (ε := ε) (α := α)) machine SameButMark where
  empty _ _ := ⟨rfl, rfl, rfl⟩
  consume := by
    intro state other same chunk
    rw [machine_consume, machine_consume, consume_eq, consume_eq]
    split
    · refine ⟨?_, same.decimalScale, same.options⟩
      simp only [same.moments, same.decimalScale, same.options]
    · rfl
  merge first second := by
    refine ⟨?_, first.decimalScale, first.options⟩
    change Moments.merge _ _ = Moments.merge _ _
    rw [first.moments, second.moments]

/-- The second program is the first without some of the chunks that add no pair to the register they
are given to. -/
inductive LeavesOut :
    (Nat → Option (CovarianceState ε α)) → List (Instruction ε) → List (Instruction ε) → Prop where
  | nil (registers : Nat → Option (CovarianceState ε α)) : LeavesOut registers [] []
  | keep {registers : Nat → Option (CovarianceState ε α)} {program rest : List (Instruction ε)}
      (instruction : Instruction ε) :
    LeavesOut (machine.execute registers instruction).1 program rest →
      LeavesOut registers (instruction :: program) (instruction :: rest)
  | drop {registers : Nat → Option (CovarianceState ε α)} {program rest : List (Instruction ε)}
      {target : Nat} {chunk : Chunk ε} :
    (∀ state, registers target = some state → chunk.IsPairless state.options) →
      LeavesOut (machine.execute registers (.consume target chunk)).1 program rest →
        LeavesOut registers (.consume target chunk :: program) rest

theorem execute_pairless {registers others : Nat → Option (CovarianceState ε α)} {target : Nat}
    {chunk : Chunk ε}
    (pairless : ∀ state, registers target = some state → chunk.IsPairless state.options)
    (matching : Matching SameButMark registers others) :
    Matching SameButMark (machine.execute registers (.consume target chunk)).1 others := by
  rcases matching.held target with ⟨left, right⟩ | ⟨state, other, left, right, same⟩
  · simp only [Machine.execute, left]
    exact matching
  · rw [machine.execute_consume left]
    cases absorbed : machine.consume state chunk with
    | error refusal => exact matching
    | ok next =>
      have unchanged : next.SameButMark state := consume_pairless (pairless state left) absorbed
      have related : next.SameButMark other :=
        ⟨unchanged.moments.trans same.moments, unchanged.decimalScale.trans same.decimalScale,
          unchanged.options.trans same.options⟩
      have updated := matching.update target related
      rwa [← right, Function.update_eq_self] at updated

theorem LeavesOut.resume {registers others : Nat → Option (CovarianceState ε α)}
    {program rest : List (Instruction ε)} (left : LeavesOut registers program rest)
    (matching : Matching SameButMark registers others) :
    Matching SameButMark (machine.resume registers program).registers
      (machine.resume others rest).registers := by
  induction left generalizing others with
  | nil => exact matching
  | keep instruction _ ih => exact ih (mark_simulation.execute matching instruction).1
  | drop pairless _ ih => exact ih (execute_pairless pairless matching)

end CovarianceState

/-- The windows without a pair may be left out of the exact accumulation. -/
theorem Moments.exact_eq_paired_windows [Inhabited δ] {x y : Sequence δ} (xLawful : x.Lawful)
    (yLawful : y.Lawful) (toInt : δ → Int) (bound : Nat) :
    (exact toInt bound x y : Moments α) =
      ((chunkWindows bound 0 (min x.length y.length)).filter fun window =>
        window.slots.any (x.pairedAt y)).foldl (mergeWindow toInt x y) empty := by
  rw [exact_eq_foldl, List.foldl_filter]
  apply List.foldl_ext
  intro moments window _
  split
  · rfl
  · rename_i pairless
    apply merge_window_of_no_pairs xLawful yLawful
    rw [Sequence.filter_map_pair_at xLawful yLawful, List.map_eq_nil_iff, List.filter_eq_nil_iff]
    simpa using pairless

end Chunks

variable [Element ε]

namespace Held

variable {single : Bool} {machine : Machine ε σ} {empty : σ} {merge : σ → σ → σ} {read : σ → β}
  {Sound : σ → Prop}

/-- A tree over states of registers, and what is left of it without those that absorbed no pair. -/
theorem eval_prune (reads : Reduction.Reads empty merge Sound read)
    (sound : ∀ held : Held single machine, Sound held.state)
    (blank : ∀ held : Held single machine, held.hasPairs = false → read held.state = read empty)
    (tree : Reduction (Held single machine)) :
    read (tree.eval empty merge state) = read ((tree.prune hasPairs).eval empty merge state) ∧
      ((∀ held ∈ tree.items, held.hasPairs = false) →
        read (tree.eval empty merge state) = read empty) := by
  have pruned := reads.eval_prune (fun held (_ : held ∈ tree.items) => sound held)
    fun held _ => blank held
  refine ⟨pruned, ?_⟩
  intro pairless
  rw [pruned, Reduction.prune_eq_neutral pairless]
  rfl

theorem eval_both (empty : σ) (merge : σ → σ → σ) (Holds : σ → Prop) (emptyHolds : Holds empty)
    (mergeHolds : ∀ first second, Holds first → Holds second → Holds (merge first second))
    {tree : Reduction (Held single machine)} (leaves : ∀ held ∈ tree.items, Holds held.state) :
    Holds (tree.eval empty merge state) ∧
      Holds ((tree.prune hasPairs).eval empty merge state) := by
  refine ⟨Reduction.eval_holds emptyHolds mergeHolds leaves, ?_⟩
  apply Reduction.eval_holds emptyHolds mergeHolds
  intro held found
  rw [Reduction.prune_items] at found
  exact leaves held (List.mem_of_mem_filter found)

end Held

/-- States that absorbed no pair may be left out of every tree of merges: the root keeps its numbers
to the last bit, and they are those of the empty state when nothing is left. Where all states were
created alike, it differs at most in its marks. The same holds for chunks that add no pair, left out
of any program, and for windows without a pair in the exact accumulation. -/
theorem pairless_parts_leave_no_trace (options : VarianceOptions) (decimalScale : Int) :
    (∀ tree : Reduction (Held false (CovarianceState.machine (ε := ε) (α := α))),
        let empty : CovarianceState ε α := .empty options decimalScale
        let root := tree.eval empty CovarianceState.merge Held.state
        let rest := (tree.prune Held.hasPairs).eval empty CovarianceState.merge Held.state
        root.moments = rest.moments ∧
          ((∀ held ∈ tree.items, held.hasPairs = false) → root.moments = .empty) ∧
          ((∀ held ∈ tree.items,
              held.state.options = options ∧ held.state.decimalScale = decimalScale) →
            root.SameButMark rest)) ∧
      (∀ tree : Reduction (Held true (CorrelationState.machine (ε := ε) (α := α))),
        let empty : CorrelationState ε α := .empty options decimalScale
        let root := tree.eval empty CorrelationState.merge Held.state
        let rest := (tree.prune Held.hasPairs).eval empty CorrelationState.merge Held.state
        root.figures = rest.figures ∧
          ((∀ held ∈ tree.items, held.hasPairs = false) → root.figures = (.empty, 0, 0)) ∧
          ((∀ held ∈ tree.items, held.state.covariance.options = options ∧
              held.state.covariance.decimalScale = decimalScale) →
            root.SameButMarks rest)) ∧
      (∀ program rest : List (Instruction ε),
        CovarianceState.LeavesOut (α := α) (fun _ => none) program rest →
          Matching CovarianceState.SameButMark
            ((CovarianceState.machine (α := α)).run program).registers
            ((CovarianceState.machine (α := α)).run rest).registers) ∧
      ∀ (x y : Sequence ε) (toInt : ε → Int) (bound : Nat), x.Lawful → y.Lawful →
        (Moments.exact toInt bound x y : Moments α) =
          ((chunkWindows bound 0 (min x.length y.length)).filter fun window =>
            window.slots.any (x.pairedAt y)).foldl (Moments.mergeWindow toInt x y) .empty := by
  refine ⟨?_, ?_, ?_, ?_⟩
  · intro tree empty root rest
    obtain ⟨moments, blank⟩ := Held.eval_prune (CovarianceState.merge_reads options decimalScale)
      (fun held => (held.related CovarianceState.canonical_simulation).2)
      CovarianceState.held_moments tree
    refine ⟨moments, blank, ?_⟩
    intro alike
    obtain ⟨rootAlike, restAlike⟩ := Held.eval_both empty CovarianceState.merge
      (fun state => state.options = options ∧ state.decimalScale = decimalScale)
      ⟨rfl, rfl⟩ (fun _ _ first _ => first) alike
    exact ⟨moments, rootAlike.2.trans restAlike.2.symm, rootAlike.1.trans restAlike.1.symm⟩
  · intro tree empty root rest
    obtain ⟨figures, blank⟩ := Held.eval_prune (CorrelationState.merge_reads options decimalScale)
      (fun held => (held.related CorrelationState.sound_simulation).2)
      CorrelationState.held_figures tree
    refine ⟨figures, blank, ?_⟩
    intro alike
    obtain ⟨rootAlike, restAlike⟩ := Held.eval_both empty CorrelationState.merge
      (fun state => state.covariance.options = options ∧
        state.covariance.decimalScale = decimalScale)
      ⟨rfl, rfl⟩ (fun _ _ first _ => first) alike
    obtain ⟨moments, squares⟩ := Prod.mk.inj figures
    obtain ⟨squaresX, squaresY⟩ := Prod.mk.inj squares
    exact ⟨⟨moments, rootAlike.2.trans restAlike.2.symm, rootAlike.1.trans restAlike.1.symm⟩,
      squaresX, squaresY⟩
  · intro program rest left
    exact left.resume fun _ => .none
  · intro x y toInt bound xLawful yLawful
    exact Moments.exact_eq_paired_windows xLawful yLawful toInt bound

/-- A fresh state, and one that dropped its chunk for a null, on both sides of one with pairs; the
same chunk ahead of another one; and integers with a null in a window of its own. -/
theorem pairless_parts_leave_no_trace_strict :
    let strict : VarianceOptions := { skipNulls := false }
    let nulls := Chunk.ofOptions #[some (2 : Float), none] #[some 1, some 4]
    let pairs := Chunk.ofOptions #[some (3 : Float), some 5] #[some 1, some 7]
    let machine : Machine Float (CorrelationState Float Float) := CorrelationState.machine
    let fresh : Held true machine := ⟨[.create 0 strict 0], 0, _, _, rfl, rfl⟩
    let dropped : Held true machine :=
      ⟨[.create 0 strict 0, .consume 0 nulls], 0, _, _, rfl, rfl⟩
    let kept : Held true machine := ⟨[.create 0 strict 0, .consume 0 pairs], 0, _, _, rfl, rfl⟩
    let root (tree : Reduction (Held true machine)) :=
      tree.eval (.empty strict 0) CorrelationState.merge Held.state
    let covariance : Machine Float (CovarianceState Float Float) := CovarianceState.machine
    let x := Sequence.ofOptions #[some (3 : Int8), none, some 5]
    let y := Sequence.ofOptions #[some (1 : Int8), some 4, some 7]
    (root ((Reduction.item dropped).join ((Reduction.item kept).join (.item fresh)))).SameButMarks
        kept.state ∧
      (root ((Reduction.item dropped).join (.item fresh))).figures = (.empty, 0, 0) ∧
      Matching CovarianceState.SameButMark
        (covariance.run [.create 0 strict 0, .consume 0 nulls, .consume 0 pairs]).registers
        (covariance.run [.create 0 strict 0, .consume 0 pairs]).registers ∧
      (Moments.exact Int8.toInt 1 x y : Moments Float) =
        [⟨0, 1⟩, ⟨2, 1⟩].foldl (Moments.mergeWindow Int8.toInt x y) .empty := by
  intro strict nulls pairs machine fresh dropped kept root covariance x y
  have floats := pairless_parts_leave_no_trace (ε := Float) (α := Float) strict 0
  have integers := pairless_parts_leave_no_trace (ε := Int8) (α := Float) strict 0
  have left : CovarianceState.LeavesOut (α := Float) (fun _ => none)
      [.create 0 strict 0, .consume 0 nulls, .consume 0 pairs]
      [.create 0 strict 0, .consume 0 pairs] := by
    refine .keep _ (.drop ?_ (.keep _ (.nil _)))
    intro state created
    cases created
    exact .inr ⟨rfl, .inl (List.mem_map.mpr ⟨1, by decide, rfl⟩)⟩
  refine ⟨?_, ?_, floats.2.2.1 _ _ left, ?_⟩
  · refine (floats.2.1 _).2.2 ?_
    intro held found
    simp only [Reduction.items, List.singleton_append, List.mem_cons, List.not_mem_nil,
      or_false] at found
    rcases found with rfl | rfl | rfl <;> exact ⟨rfl, rfl⟩
  · refine (floats.2.1 _).2.1 ?_
    intro held found
    simp only [Reduction.items, List.singleton_append, List.mem_cons, List.not_mem_nil,
      or_false] at found
    rcases found with rfl | rfl <;> rfl
  · have windows : (chunkWindows 1 0 (min x.length y.length)).filter
        (fun window => window.slots.any (x.pairedAt y)) = [⟨0, 1⟩, ⟨2, 1⟩] := by
      decide +kernel
    rw [← windows]
    exact integers.2.2.2 x y Int8.toInt 1 (Sequence.of_options_lawful _)
      (Sequence.of_options_lawful _)

end Comoment
