import Comoment.Proofs.Covariance

/-!
Correlation states without rounding. Both sums of squared deviations are those of the pairs of the
covariance, from the means that the covariance holds at the time.
-/

namespace Comoment

namespace CorrelationState

variable {ε : Type}

def ofLedger (ledger : Ledger) : CorrelationState ε ℚ where
  covariance := CovarianceState.ofLedger ledger
  squaresX := (Spread.ofValues (ledger.pairs.map Prod.fst)).squares
  squaresY := (Spread.ofValues (ledger.pairs.map Prod.snd)).squares
  consumed := !ledger.entries.isEmpty

theorem of_ledger_spreads (ledger : Ledger) :
    (ofLedger ledger : CorrelationState ε ℚ).spreadX =
        Spread.ofValues (ledger.pairs.map Prod.fst) ∧
      (ofLedger ledger : CorrelationState ε ℚ).spreadY =
        Spread.ofValues (ledger.pairs.map Prod.snd) := by
  constructor <;>
    simp [spreadX, spreadY, ofLedger, CovarianceState.ofLedger, Moments.ofPairs, Spread.ofValues]

theorem merge_of_ledger (first second : Ledger) :
    (ofLedger first : CorrelationState ε ℚ).merge (ofLedger second) =
      ofLedger (first.merge second) := by
  obtain ⟨firstX, firstY⟩ := of_ledger_spreads (ε := ε) first
  obtain ⟨secondX, secondY⟩ := of_ledger_spreads (ε := ε) second
  have squares : ∀ component : ℚ × ℚ → ℚ,
      (Spread.ofValues (first.pairs.map component)).mergedSquares
          (Spread.ofValues (second.pairs.map component)) =
        (Spread.ofValues ((first.merge second).pairs.map component)).squares := by
    intro component
    rw [Spread.merged_squares_of_values, ← Multiset.map_add, ← Ledger.pairs_merge]
  have consumed : (!first.entries.isEmpty || !second.entries.isEmpty) =
      !(first.entries ++ second.entries).isEmpty := by
    cases first.entries <;> rfl
  unfold merge
  rw [firstX, firstY, secondX, secondY, squares, squares]
  simp only [ofLedger, CovarianceState.merge_of_ledger, consumed]
  rfl

theorem of_ledger_squares_empty {ledger : Ledger} (noPairs : ledger.pairs = 0) :
    (ofLedger ledger : CorrelationState ε ℚ).squaresX = 0 ∧
      (ofLedger ledger : CorrelationState ε ℚ).squaresY = 0 := by
  simp [ofLedger, noPairs, Spread.ofValues, deviationSquares]

/-- The state holds the covariance of the pairs in its ledger, and the squared deviations of these
pairs from the means of that covariance. -/
structure Describes (ledger : Ledger) (state : CorrelationState ε ℚ) : Prop where
  covariance : state.covariance = CovarianceState.ofLedger ledger
  squaresX : state.squaresX =
    deviationSquares (ledger.pairs.map Prod.fst) state.covariance.moments.meanX
  squaresY : state.squaresY =
    deviationSquares (ledger.pairs.map Prod.snd) state.covariance.moments.meanY
  no_pairs : ledger.pairs = 0 → state.squaresX = 0 ∧ state.squaresY = 0

theorem of_ledger_describes (ledger : Ledger) :
    (ofLedger ledger : CorrelationState ε ℚ).Describes ledger where
  covariance := rfl
  squaresX := rfl
  squaresY := rfl
  no_pairs := of_ledger_squares_empty

theorem empty_of_ledger (options : VarianceOptions) (decimalScale : Int) :
    (empty options decimalScale : CorrelationState ε ℚ) =
      ofLedger (Ledger.empty options decimalScale) := by
  unfold empty
  rw [CovarianceState.empty_of_ledger]
  rfl

theorem idle_of_unused {ledger : Ledger} (unused : ledger.entries = []) :
    ((ofLedger ledger : CorrelationState ε ℚ).consumed ||
      (ofLedger ledger : CorrelationState ε ℚ).covariance.moments.count != 0) = false := by
  simp [ofLedger, unused, CovarianceState.ofLedger, Ledger.pairs, Moments.ofPairs]

variable [Element ε]

def sumSquaredDeviations {α : Type} [Scalar α] (scale : Int) (center : α)
    (component : ε → ε → ε) (x y : Sequence ε) : α :=
  sumPaired x y fun a b => squaredDeviation scale center (component a b)

theorem sum_squared_deviations_eq {x y : Sequence ε} (xLawful : x.Lawful) (yLawful : y.Lawful)
    (scale : Int) (center : ℚ) (component : ε → ε → ε) :
    sumSquaredDeviations scale center component x y =
      deviationSquares
        ((x.pairs y).map fun pair => Element.exact scale (component pair.1 pair.2)) center := by
  unfold sumSquaredDeviations
  rw [sum_paired_eq xLawful yLawful]
  simp [squaredDeviation, Element.to_scalar_eq_exact, deviationSquares, Function.comp_def, pow_two]

theorem consume_used {ledger : Ledger} (used : ledger.entries ≠ []) (x y : Sequence ε) :
    (ofLedger ledger).consume x y = .error .alreadyConsumed := by
  simp [consume_eq, ofLedger, used]

theorem consume_misaligned {ledger : Ledger} (unused : ledger.entries = []) {x y : Sequence ε}
    (misaligned : x.length ≠ y.length) :
    (ofLedger ledger).consume x y = .error (.lengthMismatch x.length y.length) := by
  rw [consume_eq, idle_of_unused unused, CovarianceState.consume_misaligned _ misaligned]
  rfl

theorem consume_of_ledger {ledger : Ledger} (unused : ledger.entries = []) (chunk : Chunk ε)
    (aligned : chunk.x.length = chunk.y.length) :
    (ofLedger ledger).consume chunk.x chunk.y = .ok (ofLedger (ledger.add chunk)) := by
  have noPairs : ledger.pairs = 0 := by
    simp [Ledger.pairs, unused]
  have covariance : (ofLedger ledger : CorrelationState ε ℚ).covariance.consume chunk.x chunk.y =
      .ok (CovarianceState.ofLedger (ledger.add chunk)) :=
    CovarianceState.consume_of_ledger ledger chunk aligned
  have squares := sum_squared_deviations_eq chunk.xLawful chunk.yLawful ledger.decimalScale
  rw [consume_eq, idle_of_unused unused, covariance]
  change Except.ok (if 0 < (Moments.ofPairs (ledger.add chunk).pairs).count then _ else _) = _
  by_cases none : (ledger.add chunk).pairs = 0
  · obtain ⟨beforeX, beforeY⟩ := of_ledger_squares_empty (ε := ε) noPairs
    obtain ⟨afterX, afterY⟩ := of_ledger_squares_empty (ε := ε) none
    have count : ¬0 < (Moments.ofPairs (ledger.add chunk).pairs).count := by
      simp [none, Moments.ofPairs]
    rw [if_neg count, beforeX.trans afterX.symm, beforeY.trans afterY.symm]
    rfl
  · have count : 0 < (Moments.ofPairs (ledger.add chunk).pairs).count := by
      simpa [Moments.ofPairs, Multiset.card_pos] using none
    have kept : (ledger.add chunk).pairs =
        numbers (Element.exact ledger.decimalScale) (chunk.x.pairs chunk.y) :=
      (ledger.pairs_add_unused chunk aligned unused).resolve_left none
    have squaresX : sumSquaredDeviations ledger.decimalScale
        (mean ((ledger.add chunk).pairs.map Prod.fst)) (fun a _ => a) chunk.x chunk.y =
        (ofLedger (ledger.add chunk) : CorrelationState ε ℚ).squaresX := by
      rw [squares]
      simp [ofLedger, Spread.ofValues, kept, numbers, Function.comp_def]
    have squaresY : sumSquaredDeviations ledger.decimalScale
        (mean ((ledger.add chunk).pairs.map Prod.snd)) (fun _ b => b) chunk.x chunk.y =
        (ofLedger (ledger.add chunk) : CorrelationState ε ℚ).squaresY := by
      rw [squares]
      simp [ofLedger, Spread.ofValues, kept, numbers, Function.comp_def]
    rw [if_pos count]
    change Except.ok (⟨CovarianceState.ofLedger (ledger.add chunk), _, _, true⟩ :
      CorrelationState ε ℚ) = _
    refine congrArg Except.ok ?_
    rw [mk.injEq]
    exact ⟨rfl, squaresX, squaresY, rfl⟩

theorem simulation :
    Simulation (Ledger.machine true) (machine (ε := ε)) fun ledger state =>
      state = ofLedger ledger where
  empty := empty_of_ledger
  consume := by
    rintro ledger state rfl chunk
    rw [Ledger.machine_consume, machine_consume, Ledger.consume]
    simp only [Bool.true_and, Bool.not_eq_true', List.isEmpty_eq_false_iff]
    by_cases unused : ledger.entries = []
    · rw [if_neg (not_not.mpr unused)]
      by_cases aligned : chunk.x.length = chunk.y.length
      · rw [if_pos aligned, consume_of_ledger unused chunk aligned]
        rfl
      · rw [if_neg aligned, consume_misaligned unused aligned]
        rfl
    · rw [if_pos unused, consume_used unused]
      rfl
  merge := by
    rintro first second _ _ rfl rfl
    exact merge_of_ledger first second

end CorrelationState

variable {ε : Type} [Element ε]

/-- After every program each register holds, beside the covariance of the pairs in its ledger, the
squared deviations of the same pairs from the means of that covariance. -/
theorem correlation_registers_describe_pairs (program : List (Instruction ε)) :
    let states := (CorrelationState.machine (α := ℚ)).run program
    let ledgers := (Ledger.machine true).run program
    states.answers = ledgers.answers ∧
      Matching CorrelationState.Describes ledgers.registers states.registers := by
  obtain ⟨matching, answers⟩ := CorrelationState.simulation.run program
  refine ⟨answers.symm, matching.imp ?_⟩
  rintro ledger _ rfl
  exact CorrelationState.of_ledger_describes ledger

end Comoment
