import Comoment.Error
import Comoment.Options
import Comoment.Sequence.Basic
import Mathlib.Logic.Function.Basic

/-!
Programs over registers that hold accumulation states. An instruction creates a state, absorbs a
chunk, merges one register into another or copies one. What relates two kinds of states before and
after each of the three operations relates all registers after every program.
-/

namespace Comoment

structure Chunk (ε : Type) where
  x : Sequence ε
  y : Sequence ε
  xLawful : x.Lawful
  yLawful : y.Lawful

inductive Instruction (ε : Type) where
  | create (target : Nat) (options : VarianceOptions) (decimalScale : Int)
  | consume (target : Nat) (chunk : Chunk ε)
  | merge (target source : Nat)
  | clone (target source : Nat)

def KeepsState {σ : Type} (action : EStateM Error σ Unit) : Prop :=
  ∀ state refusal left, action.run state = .error refusal left → left = state

/-- A kind of state: the state before any chunk, what absorbs a chunk into it, and the state with
the chunks of another. -/
structure Machine (ε σ : Type) where
  empty : VarianceOptions → Int → σ
  absorb : Chunk ε → EStateM Error σ Unit
  merge : σ → σ → σ
  keeps : ∀ chunk, KeepsState (absorb chunk)

/-- The states held after a program, and for each instruction the error of a refused chunk. -/
structure Execution (σ : Type) where
  registers : Nat → Option σ
  answers : List (Option Error)

namespace Machine

variable {ε σ τ : Type}

def consume (machine : Machine ε σ) (state : σ) (chunk : Chunk ε) : Except Error σ :=
  outcomeOf (machine.absorb chunk) state

def ofOutcomes (empty : VarianceOptions → Int → σ) (consume : σ → Chunk ε → Except Error σ)
    (merge : σ → σ → σ) : Machine ε σ where
  empty := empty
  absorb chunk := fun state =>
    match consume state chunk with
    | .ok next => .ok () next
    | .error refusal => .error refusal state
  merge := merge
  keeps := by
    intro chunk state refusal left refused
    simp only [EStateM.run] at refused
    split at refused
    · cases refused
    · cases refused
      rfl

theorem of_outcomes_consume (empty : VarianceOptions → Int → σ)
    (consume : σ → Chunk ε → Except Error σ) (merge : σ → σ → σ) (state : σ) (chunk : Chunk ε) :
    (ofOutcomes empty consume merge).consume state chunk = consume state chunk := by
  unfold Machine.consume outcomeOf ofOutcomes EStateM.run
  cases outcome : consume state chunk with
  | ok next => simp only [outcome]
  | error refusal => simp only [outcome]

/-- Executes an instruction. Nothing happens when a register it reads holds no state. -/
def execute (machine : Machine ε σ) (registers : Nat → Option σ) :
    Instruction ε → (Nat → Option σ) × Option Error
  | .create target options decimalScale =>
    (Function.update registers target (some (machine.empty options decimalScale)), none)
  | .consume target chunk =>
    match registers target with
    | none => (registers, none)
    | some state =>
      match (machine.absorb chunk).run state with
      | .ok _ next => (Function.update registers target (some next), none)
      | .error refusal left => (Function.update registers target (some left), some refusal)
  | .merge target source =>
    match registers target, registers source with
    | some first, some second =>
      (Function.update registers target (some (machine.merge first second)), none)
    | _, _ => (registers, none)
  | .clone target source =>
    match registers source with
    | none => (registers, none)
    | some state => (Function.update registers target (some state), none)

theorem execute_consume (machine : Machine ε σ) {registers : Nat → Option σ} {target : Nat}
    {state : σ} (held : registers target = some state) (chunk : Chunk ε) :
    machine.execute registers (.consume target chunk) =
      match machine.consume state chunk with
      | .ok next => (Function.update registers target (some next), none)
      | .error refusal => (registers, some refusal) := by
  simp only [execute, held, consume, outcomeOf]
  cases absorbed : (machine.absorb chunk).run state with
  | ok _ next => rfl
  | error refusal left =>
    have unchanged : left = state := machine.keeps chunk state refusal left absorbed
    simp only [unchanged, ← held, Function.update_eq_self]

/-- A refused chunk leaves all registers as they are. -/
theorem execute_keeps (machine : Machine ε σ) {registers : Nat → Option σ}
    {instruction : Instruction ε} {refusal : Error}
    (refused : (machine.execute registers instruction).2 = some refusal) :
    (machine.execute registers instruction).1 = registers := by
  cases instruction with
  | create target options decimalScale => cases refused
  | consume target chunk =>
    cases held : registers target with
    | none => simp only [execute, held]
    | some state =>
      rw [machine.execute_consume held] at refused ⊢
      cases outcome : machine.consume state chunk with
      | ok next =>
        rw [outcome] at refused
        cases refused
      | error cause => rfl
  | merge target source =>
    simp only [execute] at refused
    split at refused <;> cases refused
  | clone target source =>
    simp only [execute] at refused
    split at refused <;> cases refused

def resume (machine : Machine ε σ) (registers : Nat → Option σ) :
    List (Instruction ε) → Execution σ
  | [] => ⟨registers, []⟩
  | instruction :: program =>
    let step := machine.execute registers instruction
    let rest := machine.resume step.1 program
    ⟨rest.registers, step.2 :: rest.answers⟩

def run (machine : Machine ε σ) (program : List (Instruction ε)) : Execution σ :=
  machine.resume (fun _ => none) program

end Machine

variable {ε σ τ : Type}

def SameOutcome (Related : τ → σ → Prop) : Except Error τ → Except Error σ → Prop
  | .ok model, .ok state => Related model state
  | .error expected, .error refusal => expected = refusal
  | _, _ => False

theorem SameOutcome.of_ok {Related : τ → σ → Prop} {model : τ} {outcome : Except Error σ}
    (same : SameOutcome Related (.ok model) outcome) :
    ∃ state, outcome = .ok state ∧ Related model state := by
  cases outcome with
  | error refusal => exact same.elim
  | ok state => exact ⟨state, rfl, same⟩

theorem SameOutcome.of_error {Related : τ → σ → Prop} {refusal : Error}
    {outcome : Except Error σ} (same : SameOutcome Related (.error refusal) outcome) :
    outcome = .error refusal := by
  cases outcome with
  | error cause => exact congrArg Except.error same.symm
  | ok state => exact same.elim

theorem SameOutcome.with_fact {Related : τ → σ → Prop} {Holds : σ → Prop}
    {expected : Except Error τ} {outcome : Except Error σ}
    (same : SameOutcome Related expected outcome)
    (holds : ∀ state, outcome = .ok state → Holds state) :
    SameOutcome (fun model state => Related model state ∧ Holds state) expected outcome := by
  cases expected with
  | error refusal =>
    rw [same.of_error]
    rfl
  | ok model =>
    obtain ⟨state, ended, related⟩ := same.of_ok
    rw [ended]
    exact ⟨related, holds state ended⟩

/-- A relation that the operations of two kinds of states preserve. -/
structure Simulation (models : Machine ε τ) (machine : Machine ε σ) (Related : τ → σ → Prop) :
    Prop where
  empty : ∀ options decimalScale,
    Related (models.empty options decimalScale) (machine.empty options decimalScale)
  consume : ∀ {model state}, Related model state → ∀ chunk,
    SameOutcome Related (models.consume model chunk) (machine.consume state chunk)
  merge : ∀ {model₁ model₂ state₁ state₂}, Related model₁ state₁ → Related model₂ state₂ →
    Related (models.merge model₁ model₂) (machine.merge state₁ state₂)

def Matching (Related : τ → σ → Prop) (models : Nat → Option τ) (states : Nat → Option σ) : Prop :=
  ∀ register, Option.Rel Related (models register) (states register)

theorem Matching.update {Related : τ → σ → Prop} {models : Nat → Option τ}
    {states : Nat → Option σ} (matching : Matching Related models states) (target : Nat)
    {model : τ} {state : σ} (related : Related model state) :
    Matching Related (Function.update models target (some model))
      (Function.update states target (some state)) := by
  intro register
  by_cases same : register = target
  · subst same
    simpa using Option.Rel.some related
  · simpa [same] using matching register

theorem Matching.held {Related : τ → σ → Prop} {models : Nat → Option τ}
    {states : Nat → Option σ} (matching : Matching Related models states) (register : Nat) :
    models register = none ∧ states register = none ∨
      ∃ model state, models register = some model ∧ states register = some state ∧
        Related model state := by
  generalize models register = left, states register = right, matching register = found
  cases found with
  | none => exact .inl ⟨rfl, rfl⟩
  | some related => exact .inr ⟨_, _, rfl, rfl, related⟩

theorem Matching.imp {Related Weaker : τ → σ → Prop} {models : Nat → Option τ}
    {states : Nat → Option σ} (matching : Matching Related models states)
    (weaken : ∀ model state, Related model state → Weaker model state) :
    Matching Weaker models states := by
  intro register
  rcases matching.held register with ⟨left, right⟩ | ⟨model, state, left, right, related⟩
  · rw [left, right]
    exact .none
  · rw [left, right]
    exact .some (weaken model state related)

namespace Simulation

variable {models : Machine ε τ} {machine : Machine ε σ} {Related : τ → σ → Prop}

theorem execute (simulation : Simulation models machine Related) {before : Nat → Option τ}
    {states : Nat → Option σ} (matching : Matching Related before states)
    (instruction : Instruction ε) :
    Matching Related (models.execute before instruction).1
        (machine.execute states instruction).1 ∧
      (models.execute before instruction).2 = (machine.execute states instruction).2 := by
  cases instruction with
  | create target options decimalScale =>
    exact ⟨matching.update target (simulation.empty options decimalScale), rfl⟩
  | consume target chunk =>
    rcases matching.held target with ⟨left, right⟩ | ⟨model, state, left, right, related⟩
    · simp only [Machine.execute, left, right]
      exact ⟨matching, trivial⟩
    · have outcome := simulation.consume related chunk
      rw [models.execute_consume left, machine.execute_consume right]
      cases absorbed : models.consume model chunk with
      | error refusal =>
        rw [absorbed] at outcome
        rw [outcome.of_error]
        exact ⟨matching, rfl⟩
      | ok next =>
        rw [absorbed] at outcome
        obtain ⟨nextState, consumed, nextRelated⟩ := outcome.of_ok
        rw [consumed]
        exact ⟨matching.update target nextRelated, rfl⟩
  | merge target source =>
    rcases matching.held target with ⟨left, right⟩ | ⟨model₁, state₁, left₁, right₁, related₁⟩
    · simp only [Machine.execute, left, right]
      exact ⟨matching, trivial⟩
    · rcases matching.held source with ⟨left, right⟩ | ⟨model₂, state₂, left₂, right₂, related₂⟩
      · simp only [Machine.execute, left₁, right₁, left, right]
        exact ⟨matching, trivial⟩
      · simp only [Machine.execute, left₁, right₁, left₂, right₂]
        exact ⟨matching.update target (simulation.merge related₁ related₂), trivial⟩
  | clone target source =>
    rcases matching.held source with ⟨left, right⟩ | ⟨model, state, left, right, related⟩
    · simp only [Machine.execute, left, right]
      exact ⟨matching, trivial⟩
    · simp only [Machine.execute, left, right]
      exact ⟨matching.update target related, trivial⟩

theorem resume (simulation : Simulation models machine Related) {before : Nat → Option τ}
    {states : Nat → Option σ} (matching : Matching Related before states)
    (program : List (Instruction ε)) :
    Matching Related (models.resume before program).registers
        (machine.resume states program).registers ∧
      (models.resume before program).answers = (machine.resume states program).answers := by
  induction program generalizing before states with
  | nil => exact ⟨matching, rfl⟩
  | cons instruction program ih =>
    obtain ⟨next, answer⟩ := simulation.execute matching instruction
    obtain ⟨final, answers⟩ := ih next
    refine ⟨final, ?_⟩
    simp only [Machine.resume, answer, answers]

/-- Whole programs preserve the relation in every register and refuse the same chunks. -/
theorem run (simulation : Simulation models machine Related) (program : List (Instruction ε)) :
    Matching Related (models.run program).registers (machine.run program).registers ∧
      (models.run program).answers = (machine.run program).answers :=
  simulation.resume (fun _ => .none) program

/-- What the operations of states preserve by themselves is preserved along with the relation. -/
theorem with_invariant (simulation : Simulation models machine Related) {Holds : σ → Prop}
    (empty : ∀ options decimalScale, Holds (machine.empty options decimalScale))
    (consume : ∀ state chunk next,
      Holds state → machine.consume state chunk = .ok next → Holds next)
    (merge : ∀ first second, Holds first → Holds second → Holds (machine.merge first second)) :
    Simulation models machine fun model state => Related model state ∧ Holds state where
  empty options decimalScale := ⟨simulation.empty options decimalScale, empty options decimalScale⟩
  consume held chunk :=
    (simulation.consume held.1 chunk).with_fact fun next => consume _ chunk next held.2
  merge first second :=
    ⟨simulation.merge first.1 second.1, merge _ _ first.2 second.2⟩

theorem run_eq_map {read : τ → σ}
    (simulation : Simulation models machine fun model state => state = read model)
    (program : List (Instruction ε)) (register : Nat) :
    (machine.run program).registers register =
      ((models.run program).registers register).map read := by
  rcases (simulation.run program).1.held register with
    ⟨left, right⟩ | ⟨model, state, left, right, related⟩
  · rw [left, right]
    rfl
  · rw [left, right, related]
    rfl

end Simulation

end Comoment
