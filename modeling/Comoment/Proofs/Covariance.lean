import Comoment.Proofs.Ledger
import Comoment.Proofs.Refusals

/-!
Covariance states without rounding. The state of a ledger holds the moments of its pairs, whatever
order of chunks and tree of merges the ledger comes from.
-/

namespace Comoment

namespace CovarianceState

variable {ε : Type}

def ofLedger (ledger : Ledger) : CovarianceState ε ℚ where
  moments := Moments.ofPairs ledger.pairs
  allValid := !ledger.hasNull
  decimalScale := ledger.decimalScale
  options := ledger.options

theorem empty_of_ledger (options : VarianceOptions) (decimalScale : Int) :
    (empty options decimalScale : CovarianceState ε ℚ) =
      ofLedger (Ledger.empty options decimalScale) := by
  unfold empty
  rw [← Moments.of_pairs_zero]
  rfl

theorem merge_of_ledger (first second : Ledger) :
    (ofLedger first : CovarianceState ε ℚ).merge (ofLedger second) =
      ofLedger (first.merge second) := by
  simp only [merge, ofLedger, Moments.merge_of_pairs, Ledger.pairs_merge, Ledger.has_null_merge,
    Bool.not_or]
  rfl

theorem of_ledger_all_valid {ledger other : Ledger} (sameRows : ledger.rows = other.rows) :
    (ofLedger ledger : CovarianceState ε ℚ).allValid =
      (ofLedger other : CovarianceState ε ℚ).allValid := by
  have null : ledger.hasNull = other.hasNull := by
    rw [Bool.eq_iff_iff, Ledger.has_null_rows, Ledger.has_null_rows, sameRows]
  simp only [ofLedger, null]

theorem of_ledger_eq {ledger other : Ledger} (sameOptions : ledger.options = other.options)
    (sameScale : ledger.decimalScale = other.decimalScale) (sameRows : ledger.rows = other.rows)
    (kept : ledger.DropsNothing) (otherKept : other.DropsNothing) :
    (ofLedger ledger : CovarianceState ε ℚ) = ofLedger other := by
  have pairs : ledger.pairs = other.pairs := by
    rw [Ledger.pairs_rows kept, Ledger.pairs_rows otherKept, sameRows]
  have allValid := of_ledger_all_valid (ε := ε) sameRows
  unfold ofLedger at allValid ⊢
  simp only at allValid
  rw [allValid, pairs, sameOptions, sameScale]

variable [Element ε]

theorem consume_misaligned {α : Type} [Scalar α] (state : CovarianceState ε α) {x y : Sequence ε}
    (misaligned : x.length ≠ y.length) :
    state.consume x y = .error (.lengthMismatch x.length y.length) := by
  rw [consume_eq, if_neg misaligned]

theorem consume_of_ledger (ledger : Ledger) (chunk : Chunk ε)
    (aligned : chunk.x.length = chunk.y.length) :
    (ofLedger ledger).consume chunk.x chunk.y = .ok (ofLedger (ledger.add chunk)) := by
  have pairs := ledger.pairs_add chunk aligned
  have null := ledger.has_null_add chunk aligned
  have moments := Element.moments_eq chunk.xLawful chunk.yLawful ledger.decimalScale
  rw [consume_eq, if_pos aligned]
  simp only [ofLedger, pairs, null, moments, Moments.merge_of_pairs, Bool.not_or, Bool.not_not]
  split <;> simp [Ledger.add]

theorem simulation :
    Simulation (Ledger.machine false) (machine (ε := ε)) fun ledger state =>
      state = ofLedger ledger where
  empty := empty_of_ledger
  consume := by
    rintro ledger state rfl chunk
    rw [Ledger.machine_consume, machine_consume, Ledger.consume, Bool.false_and,
      if_neg Bool.false_ne_true]
    by_cases aligned : chunk.x.length = chunk.y.length
    · rw [if_pos aligned, consume_of_ledger ledger chunk aligned]
      rfl
    · rw [if_neg aligned, consume_misaligned _ aligned]
      rfl
  merge := by
    rintro first second _ _ rfl rfl
    exact merge_of_ledger first second

end CovarianceState

variable {ε : Type} [Element ε]

/-- After every program each register holds the moments of the pairs in its ledger and whether a
null is in it, and the refused chunks are those of two lengths. Whichever program absorbs the same
rows, in chunks, an order and merges of its own, has the same state unless it dropped a chunk. -/
theorem covariance_registers_describe_pairs (program : List (Instruction ε)) :
    let states := (CovarianceState.machine (α := ℚ)).run program
    let ledgers := (Ledger.machine false).run program
    states.answers = ledgers.answers ∧
      (∀ register, states.registers register =
        (ledgers.registers register).map CovarianceState.ofLedger) ∧
      ∀ (otherProgram : List (Instruction ε)) (register otherRegister : Nat)
        (ledger other : Ledger),
        let otherStates := (CovarianceState.machine (α := ℚ)).run otherProgram
        let otherLedgers := (Ledger.machine false).run otherProgram
        ledgers.registers register = some ledger →
        otherLedgers.registers otherRegister = some other →
        ledger.rows = other.rows →
        (states.registers register).map CovarianceState.allValid =
            (otherStates.registers otherRegister).map CovarianceState.allValid ∧
          (ledger.options = other.options → ledger.decimalScale = other.decimalScale →
            ledger.DropsNothing → other.DropsNothing →
            states.registers register = otherStates.registers otherRegister) := by
  intro states ledgers
  have held := CovarianceState.simulation.run_eq_map (ε := ε)
  refine ⟨(CovarianceState.simulation.run program).2.symm, held program, ?_⟩
  intro otherProgram register otherRegister ledger other otherStates otherLedgers found otherFound
    sameRows
  rw [held program register, held otherProgram otherRegister, found, otherFound]
  refine ⟨congrArg some (CovarianceState.of_ledger_all_valid sameRows), ?_⟩
  intro sameOptions sameScale kept otherKept
  exact congrArg some
    (CovarianceState.of_ledger_eq sameOptions sameScale sameRows kept otherKept)

theorem covariance_registers_split_chunk :
    let whole := Chunk.ofOptions #[some (2 : Int8), none, some 5] #[some 1, some 4, some 7]
    let head := Chunk.ofOptions #[some (2 : Int8)] #[some 1]
    let tail := Chunk.ofOptions #[none, some (5 : Int8)] #[some 4, some 7]
    let machine : Machine Int8 (CovarianceState Int8 ℚ) := CovarianceState.machine
    let single := machine.run [.create 0 {} 0, .consume 0 whole]
    let merged := machine.run
      [.create 0 {} 0, .consume 0 tail, .create 1 {} 0, .consume 1 head, .merge 0 1]
    single.registers 0 = merged.registers 0 := by
  intro whole head tail machine single merged
  have described := covariance_registers_describe_pairs [.create 0 {} 0, .consume 0 whole]
  exact (described.2.2
    [.create 0 {} 0, .consume 0 tail, .create 1 {} 0, .consume 1 head, .merge 0 1] 0 0
    _ _ rfl rfl (by decide)).2 rfl rfl (by decide) (by decide)

end Comoment
