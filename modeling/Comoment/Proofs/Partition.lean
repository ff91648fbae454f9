import Comoment.Proofs.Concatenation
import Comoment.Proofs.Reduction

/-!
Evaluation in chunks against evaluation of the whole. Every tree of merges absorbs each chunk into a
state of its own, so the states at its end have the ledger of all chunks, and that ledger has the
rows of the concatenated columns.
-/

namespace Comoment

variable {ε σ α : Type} [Element ε]

/-- The chunks were absorbed into a state related to their ledger, or the two lengths of one of them
differ. -/
def Explained (Related : Ledger → σ → Prop) (options : VarianceOptions)
    (chunks : List (Chunk ε)) : Except Error σ → Prop
  | .ok state =>
    (∀ chunk ∈ chunks, chunk.x.length = chunk.y.length) ∧
      Related (Ledger.ofChunks options chunks) state
  | .error refusal => ∃ chunk ∈ chunks, chunk.x.length ≠ chunk.y.length ∧
      refusal = .lengthMismatch chunk.x.length chunk.y.length

section Simulation

variable {single : Bool} {machine : Machine ε σ} {Related : Ledger → σ → Prop}
  (simulation : Simulation (Ledger.machine single) machine Related) (options : VarianceOptions)

include simulation

theorem Simulation.consume_first (chunk : Chunk ε) :
    if chunk.x.length = chunk.y.length then
      ∃ state, machine.consume (machine.empty options 0) chunk = .ok state ∧
        Related (Ledger.ofChunks options [chunk]) state
    else machine.consume (machine.empty options 0) chunk =
      .error (.lengthMismatch chunk.x.length chunk.y.length) := by
  have outcome := simulation.consume (simulation.empty options 0) chunk
  rw [Ledger.machine_consume, Ledger.consume_unused rfl] at outcome
  split at outcome
  · rename_i aligned
    rw [if_pos aligned]
    exact outcome.of_ok
  · rename_i misaligned
    rw [if_neg misaligned]
    exact outcome.of_error

theorem Simulation.consume_explained (chunk : Chunk ε) :
    Explained Related options [chunk] (machine.consume (machine.empty options 0) chunk) := by
  have outcome := simulation.consume_first options chunk
  split at outcome
  · rename_i aligned
    obtain ⟨state, absorbed, related⟩ := outcome
    rw [absorbed]
    refine ⟨?_, related⟩
    intro other found
    rw [List.mem_singleton.mp found]
    exact aligned
  · rename_i misaligned
    rw [outcome]
    exact ⟨chunk, List.mem_singleton_self chunk, misaligned, rfl⟩

theorem Simulation.reduces_explained {tree : Reduction (Chunk ε)} {outcome : Except Error σ}
    (ends : machine.Reduces options tree outcome) :
    Explained Related options tree.items outcome := by
  induction ends with
  | neutral =>
    refine ⟨?_, simulation.empty options 0⟩
    intro chunk found
    cases found
  | item chunk => exact simulation.consume_explained options chunk
  | join _ _ first second =>
    obtain ⟨firstAligned, firstRelated⟩ := first
    obtain ⟨secondAligned, secondRelated⟩ := second
    refine ⟨?_, ?_⟩
    · intro chunk found
      rcases List.mem_append.mp found with inFirst | inSecond
      · exact firstAligned chunk inFirst
      · exact secondAligned chunk inSecond
    · rw [Reduction.items, Ledger.of_chunks_append]
      exact simulation.merge firstRelated secondRelated
  | failFirst _ _ refused =>
    obtain ⟨chunk, found, cause⟩ := refused
    exact ⟨chunk, List.mem_append_left _ found, cause⟩
  | failSecond _ _ refused =>
    obtain ⟨chunk, found, cause⟩ := refused
    exact ⟨chunk, List.mem_append_right _ found, cause⟩

theorem Simulation.reduce_halves_first {chunks : List (Chunk ε)} {chunk : Chunk ε}
    (first : chunks.find? (fun chunk => chunk.x.length != chunk.y.length) = some chunk) :
    machine.reduceHalves options chunks =
      .error (.lengthMismatch chunk.x.length chunk.y.length) := by
  obtain ⟨misaligned, before, after, rfl, earlier⟩ := List.find?_eq_some_iff_append.mp first
  have refused := simulation.consume_first options chunk
  rw [if_neg (by simpa using misaligned)] at refused
  have absorbed : ∀ other ∈ before,
      ∃ state, machine.consume (machine.empty options 0) other = .ok state := by
    intro other found
    have outcome := simulation.consume_first options other
    rw [if_pos (by simpa using earlier other found)] at outcome
    obtain ⟨state, consumed, _⟩ := outcome
    exact ⟨state, consumed⟩
  unfold Machine.reduceHalves
  rw [map_m_first after absorbed refused]
  rfl

end Simulation

structure Aggregation (ε σ α : Type) where
  machine : Machine ε σ
  value? : σ → Option α

namespace Aggregation

variable (aggregation : Aggregation ε σ α) (options : VarianceOptions)

def Evaluates (chunks : List (Chunk ε)) (result : Except Error (Option α)) : Prop :=
  ∃ tree outcome, tree.items = chunks ∧ aggregation.machine.Reduces options tree outcome ∧
    result = outcome.map aggregation.value?

def ofWhole (chunk : Chunk ε) : Except Error (Option α) :=
  (aggregation.machine.consume (aggregation.machine.empty options 0) chunk).map aggregation.value?

def ofChunks (chunks : List (Chunk ε)) : Except Error (Option α) :=
  (aggregation.machine.reduceHalves options chunks).map aggregation.value?

/-- How the results of chunks, that of a single worker among them, relate to that of the whole. -/
structure FollowsWhole (chunks : List (Chunk ε)) (oneWorker whole : Except Error (Option α)) :
    Prop where
  total : ∀ tree : Reduction (Chunk ε), tree.items = chunks →
    ∃ outcome, aggregation.machine.Reduces options tree outcome
  error_iff : ∀ result, aggregation.Evaluates options chunks result →
    ((∃ cause, result = .error cause) ↔ ∃ chunk ∈ chunks, chunk.x.length ≠ chunk.y.length)
  error_cause : ∀ cause, aggregation.Evaluates options chunks (.error cause) →
    ∃ chunk ∈ chunks, chunk.x.length ≠ chunk.y.length ∧
      cause = .lengthMismatch chunk.x.length chunk.y.length
  none_iff : (∀ chunk ∈ chunks, chunk.x.length = chunk.y.length) →
    ∀ result, aggregation.Evaluates options chunks result →
      (result = .ok none ↔ whole = .ok none)
  one_worker : aggregation.Evaluates options chunks oneWorker
  first_error : ∀ chunk,
    chunks.find? (fun chunk => chunk.x.length != chunk.y.length) = some chunk →
      oneWorker = .error (.lengthMismatch chunk.x.length chunk.y.length)

variable {aggregation options} {chunks : List (Chunk ε)} {result : Except Error (Option α)}

omit [Element ε] in
theorem of_whole_evaluates (chunk : Chunk ε) :
    aggregation.Evaluates options [chunk] (aggregation.ofWhole options chunk) :=
  ⟨.item chunk, _, rfl, .item chunk, rfl⟩

omit [Element ε] in
theorem of_chunks_evaluates (chunks : List (Chunk ε)) :
    aggregation.Evaluates options chunks (aggregation.ofChunks options chunks) :=
  ⟨.halves chunks, _, Reduction.halves_items chunks,
    aggregation.machine.reduces_halves options chunks, rfl⟩

omit [Element ε] in
theorem of_operands (aggregation : Aggregation ε σ α) (options : VarianceOptions)
    {absorb : Sequence ε × Sequence ε → Except Error σ} (chunks : List (Chunk ε))
    (absorbs : ∀ chunk : Chunk ε, absorb (chunk.x, chunk.y) =
      aggregation.machine.consume (aggregation.machine.empty options 0) chunk) :
    (do
      let states ← (chunks.map fun chunk => (chunk.x, chunk.y)).mapM absorb
      return aggregation.value?
        (joinHalves (aggregation.machine.empty options 0) aggregation.machine.merge states)) =
      aggregation.ofChunks options chunks := by
  have traversed : (chunks.map fun chunk => (chunk.x, chunk.y)).mapM absorb =
      chunks.mapM fun chunk =>
        aggregation.machine.consume (aggregation.machine.empty options 0) chunk := by
    rw [List.mapM_map]
    exact congrArg chunks.mapM (funext absorbs)
  unfold ofChunks Machine.reduceHalves
  rw [traversed]
  cases chunks.mapM fun chunk =>
    aggregation.machine.consume (aggregation.machine.empty options 0) chunk <;> rfl

section Explained

variable {single : Bool} {Related : Ledger → σ → Prop}
  (simulation : Simulation (Ledger.machine single) aggregation.machine Related)
  (evaluated : aggregation.Evaluates options chunks result)

include simulation evaluated

theorem evaluates_explained :
    ∃ outcome, Explained Related options chunks outcome ∧
      result = outcome.map aggregation.value? := by
  obtain ⟨tree, outcome, rfl, ends, rfl⟩ := evaluated
  exact ⟨outcome, simulation.reduces_explained options ends, rfl⟩

theorem evaluates_aligned (aligned : ∀ chunk ∈ chunks, chunk.x.length = chunk.y.length) :
    ∃ state, Related (Ledger.ofChunks options chunks) state ∧
      result = .ok (aggregation.value? state) := by
  obtain ⟨outcome, explained, rfl⟩ := evaluates_explained simulation evaluated
  cases outcome with
  | error refusal =>
    obtain ⟨chunk, found, misaligned, _⟩ := explained
    exact absurd (aligned chunk found) misaligned
  | ok state => exact ⟨state, explained.2, rfl⟩

theorem evaluates_error {cause : Error} (failed : result = .error cause) :
    ∃ chunk ∈ chunks, chunk.x.length ≠ chunk.y.length ∧
      cause = .lengthMismatch chunk.x.length chunk.y.length := by
  obtain ⟨outcome, explained, rfl⟩ := evaluates_explained simulation evaluated
  cases outcome with
  | error refusal =>
    cases failed
    exact explained
  | ok state => cases failed

theorem evaluates_error_iff :
    (∃ cause, result = .error cause) ↔ ∃ chunk ∈ chunks, chunk.x.length ≠ chunk.y.length := by
  constructor
  · rintro ⟨cause, failed⟩
    obtain ⟨chunk, found, misaligned, _⟩ := evaluates_error simulation evaluated failed
    exact ⟨chunk, found, misaligned⟩
  · rintro ⟨chunk, found, misaligned⟩
    obtain ⟨outcome, explained, rfl⟩ := evaluates_explained simulation evaluated
    cases outcome with
    | error refusal => exact ⟨refusal, rfl⟩
    | ok state => exact absurd (explained.1 chunk found) misaligned

end Explained

section Whole

variable (aligned : ∀ chunk ∈ chunks, chunk.x.length = chunk.y.length)

include aligned

/-- The chunks and their concatenation end in states of two ledgers with the same rows. -/
theorem evaluates_beside_whole {single : Bool} {Related : Ledger → σ → Prop}
    (simulation : Simulation (Ledger.machine single) aggregation.machine Related)
    (evaluated : aggregation.Evaluates options chunks result) :
    ∃ state whole, Related (.ofChunks options chunks) state ∧
      Related (.ofChunks options [Chunk.concat chunks]) whole ∧
      result = .ok (aggregation.value? state) ∧
      aggregation.ofWhole options (.concat chunks) = .ok (aggregation.value? whole) := by
  have joined : ∀ chunk ∈ [Chunk.concat chunks], chunk.x.length = chunk.y.length := by
    intro chunk found
    rw [List.mem_singleton.mp found]
    exact Chunk.concat_aligned aligned
  obtain ⟨state, related, ended⟩ := evaluates_aligned simulation evaluated aligned
  obtain ⟨whole, wholeRelated, wholeEnded⟩ :=
    evaluates_aligned simulation (of_whole_evaluates (.concat chunks)) joined
  exact ⟨state, whole, related, wholeRelated, ended, wholeEnded⟩

/-- When a state is read off its ledger, and its value off the rows alone, the chunks have the value
of the whole. -/
theorem evaluates_whole {single : Bool} {read : Ledger → σ}
    (simulation : Simulation (Ledger.machine single) aggregation.machine fun ledger state =>
      state = read ledger)
    (reads : ∀ chunks others : List (Chunk ε),
      (Ledger.ofChunks options chunks).rows = (Ledger.ofChunks options others).rows →
      aggregation.value? (read (.ofChunks options chunks)) =
        aggregation.value? (read (.ofChunks options others)))
    (evaluated : aggregation.Evaluates options chunks result) :
    result = aggregation.ofWhole options (.concat chunks) := by
  obtain ⟨_, _, rfl, rfl, rfl, whole⟩ := evaluates_beside_whole aligned simulation evaluated
  rw [whole]
  exact congrArg Except.ok (reads _ _ (Ledger.of_concat_rows options aligned).symm)

end Whole

theorem follows_whole {single : Bool} {Related : Ledger → σ → Prop}
    (simulation : Simulation (Ledger.machine single) aggregation.machine Related)
    (reads : ∀ ledger state, Related ledger state →
      (aggregation.value? state = none ↔ ledger.admits = false))
    (options : VarianceOptions) (chunks : List (Chunk ε)) :
    aggregation.FollowsWhole options chunks (aggregation.ofChunks options chunks)
      (aggregation.ofWhole options (.concat chunks)) where
  total tree _ := aggregation.machine.reduces_total options tree
  error_iff _ evaluated := evaluates_error_iff simulation evaluated
  error_cause _ evaluated := evaluates_error simulation evaluated rfl
  none_iff := by
    intro aligned result evaluated
    obtain ⟨state, whole, related, wholeRelated, rfl, wholeEnded⟩ :=
      evaluates_beside_whole aligned simulation evaluated
    rw [wholeEnded, Except.ok.injEq, Except.ok.injEq, reads _ _ related, reads _ _ wholeRelated,
      Ledger.of_chunks_admits (Ledger.of_concat_rows options aligned)]
  one_worker := of_chunks_evaluates chunks
  first_error := by
    intro chunk first
    rw [ofChunks, simulation.reduce_halves_first options first]
    rfl

end Aggregation

def CovarianceState.aggregation [Scalar α] : Aggregation ε (CovarianceState ε α) α :=
  ⟨machine, value?⟩

def CorrelationState.aggregation [Scalar α] [SquareRoot α] :
    Aggregation ε (CorrelationState ε α) α :=
  ⟨machine, value?⟩

section Results

variable [Scalar α] (options : VarianceOptions)

theorem covariance_of_whole (chunk : Chunk ε) :
    (covariance options chunk.x chunk.y : Except Error (Option α)) =
      CovarianceState.aggregation.ofWhole options chunk :=
  bind_pure_comp _ _

theorem correlation_of_whole [SquareRoot α] (chunk : Chunk ε) :
    (correlation options chunk.x chunk.y : Except Error (Option α)) =
      CorrelationState.aggregation.ofWhole options chunk :=
  bind_pure_comp _ _

theorem covariance_of_chunks (chunks : List (Chunk ε)) :
    (covarianceOfChunks options (chunks.map fun chunk => (chunk.x, chunk.y)) :
        Except Error (Option α)) =
      CovarianceState.aggregation.ofChunks options chunks :=
  CovarianceState.aggregation.of_operands options chunks fun _ => rfl

theorem correlation_of_chunks [SquareRoot α] (chunks : List (Chunk ε)) :
    (correlationOfChunks options (chunks.map fun chunk => (chunk.x, chunk.y)) :
        Except Error (Option α)) =
      CorrelationState.aggregation.ofChunks options chunks :=
  CorrelationState.aggregation.of_operands options chunks fun _ => rfl

end Results

/-- Chunks, reduced by any tree, have an error exactly when the two lengths of a chunk differ, and a
single worker has that of the first such chunk. Otherwise they have no value exactly when their
concatenations have none, and without rounding they have the value of the concatenations. -/
theorem chunks_follow_whole [Scalar α] [SquareRoot α] [SquareRoot ℚ] (options : VarianceOptions)
    (chunks : List (Chunk ε)) :
    let whole := Chunk.concat chunks
    let operands := chunks.map fun chunk => (chunk.x, chunk.y)
    CovarianceState.aggregation.FollowsWhole options chunks
        (covarianceOfChunks options operands : Except Error (Option α))
        (covariance options whole.x whole.y) ∧
      CorrelationState.aggregation.FollowsWhole options chunks
        (correlationOfChunks options operands : Except Error (Option α))
        (correlation options whole.x whole.y) ∧
      ((∀ chunk ∈ chunks, chunk.x.length = chunk.y.length) →
        (∀ result : Except Error (Option ℚ),
          CovarianceState.aggregation.Evaluates options chunks result →
            result = covariance options whole.x whole.y) ∧
        ∀ result : Except Error (Option ℚ),
          CorrelationState.aggregation.Evaluates options chunks result →
            result = correlation options whole.x whole.y) := by
  intro whole operands
  rw [covariance_of_chunks, correlation_of_chunks]
  simp only [covariance_of_whole, correlation_of_whole]
  refine ⟨?_, ?_, fun aligned => ⟨?_, ?_⟩⟩
  · apply Aggregation.follows_whole CovarianceState.tally_simulation
    exact fun _ _ tallies => tallies.value_none
  · apply Aggregation.follows_whole CorrelationState.tally_simulation
    exact fun _ _ tallies => tallies.value_none
  · intro result evaluated
    exact Aggregation.evaluates_whole aligned CovarianceState.simulation
      (fun _ _ => CovarianceState.of_chunks_value) evaluated
  · intro result evaluated
    exact Aggregation.evaluates_whole aligned CorrelationState.simulation
      (fun _ _ => CorrelationState.of_chunks_value) evaluated

/-- A chunk without slots between two others, one of which has a null. -/
theorem chunks_follow_whole_uneven :
    let head := Chunk.ofOptions #[some (2 : Int8)] #[some 1]
    let nothing : Chunk Int8 := Chunk.ofOptions #[] #[]
    let tail := Chunk.ofOptions #[none, some (5 : Int8)] #[some 4, some 7]
    let chunks := [head, nothing, tail]
    let whole := Chunk.concat chunks
    let operands := chunks.map fun chunk => (chunk.x, chunk.y)
    (∀ chunk ∈ chunks, chunk.x.length = chunk.y.length) ∧
      covarianceOfChunks {} operands = (covariance {} whole.x whole.y : Except Error (Option ℚ)) := by
  intro head nothing tail chunks whole operands
  let root : SquareRoot ℚ := ⟨id⟩
  have aligned : ∀ chunk ∈ chunks, chunk.x.length = chunk.y.length := by decide
  obtain ⟨follows, _, exactly⟩ := chunks_follow_whole (α := ℚ) {} chunks
  exact ⟨aligned, (exactly aligned).1 _ follows.one_worker⟩

end Comoment
