import Comoment.Proofs.Outcomes

/-!
Which chunks a correlation state holds. A state takes one chunk at most, and only as long as no
state with a chunk was merged into it; until then it is the empty state, whatever instructions its
register went through. All of it holds for whatever scalars are computed with.
-/

namespace Comoment

variable {ε α : Type}

namespace Machine

variable {σ : Type}

theorem resume_append (machine : Machine ε σ) (registers : Nat → Option σ)
    (first second : List (Instruction ε)) :
    (machine.resume registers (first ++ second)).registers =
      (machine.resume (machine.resume registers first).registers second).registers := by
  induction first generalizing registers with
  | nil => rfl
  | cons instruction first ih => exact ih (machine.execute registers instruction).1

/-- A chunk that every state refuses leaves all registers as they are. -/
theorem execute_refused (machine : Machine ε σ) {chunk : Chunk ε}
    (refused : ∀ state, ∃ refusal, machine.consume state chunk = .error refusal)
    (registers : Nat → Option σ) (target : Nat) :
    (machine.execute registers (.consume target chunk)).1 = registers := by
  cases held : registers target with
  | none => simp only [execute, held]
  | some state =>
    obtain ⟨refusal, failed⟩ := refused state
    have answer : (machine.execute registers (.consume target chunk)).2 = some refusal := by
      rw [machine.execute_consume held, failed]
    exact machine.execute_keeps answer

theorem run_refused (machine : Machine ε σ) {chunk : Chunk ε}
    (refused : ∀ state, ∃ refusal, machine.consume state chunk = .error refusal)
    (before after : List (Instruction ε)) (target : Nat) :
    (machine.run (before ++ .consume target chunk :: after)).registers =
      (machine.run (before ++ after)).registers := by
  rw [run, run, resume_append, resume_append, resume, machine.execute_refused refused]

end Machine

/-- What a register went through: how its state was created, and the chunks that were absorbed by
it, by the register it was cloned from, or by those merged into it. -/
structure Past (ε : Type) where
  options : VarianceOptions
  decimalScale : Int
  chunks : List (Chunk ε)

def Past.consume (past : Past ε) (chunk : Chunk ε) : Except Error (Past ε) :=
  if past.chunks ≠ [] then .error .alreadyConsumed
  else if chunk.x.length = chunk.y.length then .ok { past with chunks := [chunk] }
  else .error (.lengthMismatch chunk.x.length chunk.y.length)

def Past.machine : Machine ε (Past ε) :=
  .ofOutcomes (fun options decimalScale => ⟨options, decimalScale, []⟩) Past.consume
    fun first second => { first with chunks := first.chunks ++ second.chunks }

theorem Past.machine_consume (past : Past ε) (chunk : Chunk ε) :
    Past.machine.consume past chunk = past.consume chunk :=
  Machine.of_outcomes_consume _ Past.consume _ past chunk

variable [Scalar α]

namespace CorrelationState

/-- The state is marked when its past has a chunk, and is the empty state otherwise. -/
structure Follows (past : Past ε) (state : CorrelationState ε α) : Prop where
  consumed : state.consumed = !past.chunks.isEmpty
  fresh : past.chunks = [] → state = empty past.options past.decimalScale
  decimalScale : state.covariance.decimalScale = past.decimalScale
  options : state.covariance.options = past.options

theorem empty_follows (options : VarianceOptions) (decimalScale : Int) :
    (empty options decimalScale : CorrelationState ε α).Follows ⟨options, decimalScale, []⟩ :=
  ⟨rfl, fun _ => rfl, rfl, rfl⟩

/-- The empty state changes nothing that is merged with it on the left. -/
theorem merge_empty (state : CorrelationState ε α) (options : VarianceOptions)
    (decimalScale : Int) : state.merge (empty options decimalScale) = state := by
  unfold merge CovarianceState.merge
  simp [empty, CovarianceState.empty, Moments.empty, Moments.merge, Spread.mergedSquares, spreadX,
    spreadY]

namespace Follows

variable {past other : Past ε} {state second : CorrelationState ε α}

theorem merge (follows : state.Follows past) (otherFollows : second.Follows other) :
    (state.merge second).Follows { past with chunks := past.chunks ++ other.chunks } where
  consumed := by
    change (state.consumed || second.consumed) = !(past.chunks ++ other.chunks).isEmpty
    rw [follows.consumed, otherFollows.consumed]
    cases past.chunks <;> rfl
  fresh := by
    intro unused
    obtain ⟨none, otherNone⟩ := List.append_eq_nil_iff.mp unused
    rw [otherFollows.fresh otherNone, merge_empty, follows.fresh none]
  decimalScale := follows.decimalScale
  options := follows.options

variable [Element ε]

theorem consume_used (follows : state.Follows past) (used : past.chunks ≠ []) (x y : Sequence ε) :
    state.consume x y = .error .alreadyConsumed := by
  have marked : state.consumed = true := by
    rw [follows.consumed]
    simpa using used
  rw [consume_eq, marked, Bool.true_or, if_pos rfl]

theorem consume_unused (follows : state.Follows past) (unused : past.chunks = [])
    (chunk : Chunk ε) (aligned : chunk.x.length = chunk.y.length) :
    state.consume chunk.x chunk.y =
      .ok (ofChunk past.options past.decimalScale chunk.x chunk.y) := by
  rw [follows.fresh unused]
  exact consume_empty chunk.xLawful chunk.yLawful aligned past.options past.decimalScale

theorem consume_misaligned (follows : state.Follows past) (unused : past.chunks = [])
    {x y : Sequence ε} (misaligned : x.length ≠ y.length) :
    state.consume x y = .error (.lengthMismatch x.length y.length) := by
  rw [follows.fresh unused]
  exact consume_empty_misaligned misaligned past.options past.decimalScale

end Follows

variable [Element ε]

theorem of_chunk_follows (past : Past ε) (chunk : Chunk ε) :
    (ofChunk past.options past.decimalScale chunk.x chunk.y : CorrelationState ε α).Follows
      { past with chunks := [chunk] } :=
  ⟨rfl, fun none => absurd none (List.cons_ne_nil chunk []), rfl, rfl⟩

theorem past_simulation :
    Simulation Past.machine (machine (ε := ε) (α := α)) Follows where
  empty := empty_follows
  consume := by
    intro past state follows chunk
    rw [Past.machine_consume, machine_consume, Past.consume]
    by_cases unused : past.chunks = []
    · rw [if_neg (not_not.mpr unused)]
      by_cases aligned : chunk.x.length = chunk.y.length
      · rw [if_pos aligned, follows.consume_unused unused chunk aligned]
        exact of_chunk_follows past chunk
      · rw [if_neg aligned, follows.consume_misaligned unused aligned]
        rfl
    · rw [if_pos unused, follows.consume_used unused]
      rfl
  merge := Follows.merge

theorem consume_misaligned_refused (state : CorrelationState ε α) {x y : Sequence ε}
    (misaligned : x.length ≠ y.length) : ∃ refusal, state.consume x y = .error refusal := by
  rw [consume_eq]
  split
  · exact ⟨.alreadyConsumed, rfl⟩
  · rw [CovarianceState.consume_misaligned _ misaligned]
    exact ⟨.lengthMismatch x.length y.length, rfl⟩

/-- What the mark of a state promises: without it the state is as it was created, and with it no
chunk is absorbed any more. A chunk that is absorbed is the only one in the state, whose squared
deviations are from the means of this chunk. -/
structure AbsorbsOnce (past : Past ε) (state : CorrelationState ε α) : Prop where
  fresh : state.consumed = false → state = empty past.options past.decimalScale
  marked : state.covariance.moments.count ≠ 0 ∨ state.covariance.allValid = false →
    state.consumed = true
  refuses : ∀ chunk : Chunk ε,
    state.consume chunk.x chunk.y = .error .alreadyConsumed ↔ past.chunks ≠ []
  absorbs : ∀ chunk : Chunk ε, past.chunks = [] → chunk.x.length = chunk.y.length →
    state.consume chunk.x chunk.y =
      .ok (ofChunk past.options past.decimalScale chunk.x chunk.y)
  misaligned : ∀ x y : Sequence ε, past.chunks = [] → x.length ≠ y.length →
    state.consume x y = .error (.lengthMismatch x.length y.length)

theorem Follows.absorbs_once {past : Past ε} {state : CorrelationState ε α}
    (follows : state.Follows past) : state.AbsorbsOnce past := by
  have fresh : state.consumed = false → state = empty past.options past.decimalScale := by
    intro unmarked
    rw [follows.consumed, Bool.not_eq_false', List.isEmpty_iff] at unmarked
    exact follows.fresh unmarked
  refine ⟨fresh, ?_, ?_, fun chunk unused => follows.consume_unused unused chunk,
    fun x y unused => follows.consume_misaligned unused⟩
  · intro used
    cases marked : state.consumed with
    | true => rfl
    | false =>
      rw [fresh marked] at used
      simp [empty, CovarianceState.empty, Moments.empty] at used
  · intro chunk
    refine ⟨?_, fun used => follows.consume_used used chunk.x chunk.y⟩
    intro refused unused
    by_cases aligned : chunk.x.length = chunk.y.length
    · rw [follows.consume_unused unused chunk aligned] at refused
      cases refused
    · rw [follows.consume_misaligned unused aligned] at refused
      cases refused

end CorrelationState

variable [Element ε]

/-- After every program a register takes a chunk exactly if neither it nor any register merged into
it has taken one, whatever the chunk held, and is then still in the state it was created in. Chunks
are refused in the same places as by the pasts alone, and one with two lengths changes nothing, now
or later. -/
theorem correlation_registers_absorb_once (program : List (Instruction ε)) :
    let machine : Machine ε (CorrelationState ε α) := CorrelationState.machine
    let states := machine.run program
    let pasts := Past.machine.run program
    states.answers = pasts.answers ∧
      Matching CorrelationState.AbsorbsOnce pasts.registers states.registers ∧
      ∀ (target : Nat) (chunk : Chunk ε) (later : List (Instruction ε)),
        chunk.x.length ≠ chunk.y.length →
          (machine.run (program ++ .consume target chunk :: later)).registers =
            (machine.run (program ++ later)).registers := by
  intro machine states pasts
  obtain ⟨matching, answers⟩ := CorrelationState.past_simulation (α := α) |>.run program
  refine ⟨answers.symm, matching.imp fun past state follows => follows.absorbs_once, ?_⟩
  intro target chunk later misaligned
  exact machine.run_refused (fun state => state.consume_misaligned_refused misaligned) program
    later target

/-- Two lengths are refused and change nothing, so the register takes the next chunk. -/
theorem correlation_registers_absorb_once_retry :
    let uneven := Chunk.ofOptions #[some (1 : Int8), some 2] #[some 3]
    let nulls := Chunk.ofOptions #[none, some (4 : Int8)] #[some 5, none]
    let machine : Machine Int8 (CorrelationState Int8 Float) := CorrelationState.machine
    let retried := machine.run [.create 0 {} 0, .consume 0 uneven, .consume 0 nulls]
    uneven.x.length ≠ uneven.y.length ∧
      retried.registers = (machine.run [.create 0 {} 0, .consume 0 nulls]).registers := by
  intro uneven nulls machine retried
  have misaligned : uneven.x.length ≠ uneven.y.length := by decide
  exact ⟨misaligned, (correlation_registers_absorb_once [.create 0 {} 0]).2.2 0 uneven
    [.consume 0 nulls] misaligned⟩

end Comoment
