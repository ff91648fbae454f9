import Comoment.Proofs.Correlation
import Comoment.Proofs.Counts

/-!
What states know of their ledger whatever scalars they compute with: how many pairs it has and
whether a null is in it. Whether there is a value depends on nothing else.
-/

namespace Comoment

variable {ε α : Type}

namespace Ledger

def admits (ledger : Ledger) : Bool :=
  ledger.options.admits ledger.pairs.card (!ledger.hasNull)

theorem admits_dropped (ledger : Ledger) (strict : ledger.options.skipNulls = false)
    (null : ledger.hasNull = true) : ledger.admits = false := by
  simp [admits, VarianceOptions.admits, strict, null]

theorem admits_kept {ledger : Ledger} (admitted : ledger.admits = true) :
    ledger.options.skipNulls = true ∨ ledger.hasNull = false := by
  simp only [admits, VarianceOptions.admits, Bool.and_eq_true, Bool.or_eq_true,
    Bool.not_eq_true'] at admitted
  exact admitted.2.symm

end Ledger

namespace CovarianceState

/-- The state counts the pairs of the ledger and knows of its nulls. -/
structure Tallies (ledger : Ledger) (state : CovarianceState ε α) : Prop where
  count : state.moments.count = ledger.pairs.card
  allValid : state.allValid = !ledger.hasNull
  decimalScale : state.decimalScale = ledger.decimalScale
  options : state.options = ledger.options

theorem Tallies.is_admitted {ledger : Ledger} {state : CovarianceState ε α}
    (tallies : state.Tallies ledger) : state.isAdmitted = ledger.admits := by
  rw [isAdmitted, tallies.count, tallies.allValid, tallies.options]
  rfl

theorem of_ledger_tallies (ledger : Ledger) :
    (ofLedger ledger : CovarianceState ε ℚ).Tallies ledger := ⟨rfl, rfl, rfl, rfl⟩

variable [Scalar α]

theorem Tallies.value_none {ledger : Ledger} {state : CovarianceState ε α}
    (tallies : state.Tallies ledger) : state.value? = none ↔ ledger.admits = false := by
  simp [value?, tallies.is_admitted]

namespace Tallies

theorem empty (options : VarianceOptions) (decimalScale : Int) :
    (CovarianceState.empty options decimalScale : CovarianceState ε α).Tallies
      (Ledger.empty options decimalScale) where
  count := rfl
  allValid := rfl
  decimalScale := rfl
  options := rfl

theorem merge {first second : Ledger} {state other : CovarianceState ε α}
    (tallies : state.Tallies first) (otherTallies : other.Tallies second) :
    (state.merge other).Tallies (first.merge second) where
  count := by
    rw [Ledger.pairs_merge, Multiset.card_add, Nat.cast_add, ← tallies.count,
      ← otherTallies.count]
    exact Moments.merge_count state.moments other.moments
  allValid := by
    rw [Ledger.has_null_merge, Bool.not_or, ← tallies.allValid, ← otherTallies.allValid]
    rfl
  decimalScale := tallies.decimalScale
  options := tallies.options

variable [Element ε]

theorem consume {ledger : Ledger} {state : CovarianceState ε α} (tallies : state.Tallies ledger)
    (chunk : Chunk ε) (aligned : chunk.x.length = chunk.y.length) :
    ∃ next, state.consume chunk.x chunk.y = .ok next ∧ next.Tallies (ledger.add chunk) := by
  have pairs := ledger.pairs_add chunk aligned
  have null := ledger.has_null_add chunk aligned
  have count := Element.moments_count (α := α) chunk.xLawful chunk.yLawful state.decimalScale
  have stored := Sequence.pairs_length chunk.xLawful chunk.yLawful
  rw [consume_eq, if_pos aligned]
  refine ⟨_, rfl, ?_, ?_, tallies.decimalScale, tallies.options⟩
  · rw [pairs, tallies.options]
    split
    · rw [Moments.merge_count, tallies.count, count]
      simp [numbers, stored]
    · simp [tallies.count]
  · rw [null, tallies.allValid, Bool.not_or, Bool.not_not]

end Tallies

variable [Element ε]

theorem tally_simulation :
    Simulation (Ledger.machine false) (machine (ε := ε) (α := α)) Tallies where
  empty := Tallies.empty
  consume := by
    intro ledger state tallies chunk
    rw [Ledger.machine_consume, machine_consume, Ledger.consume, Bool.false_and,
      if_neg Bool.false_ne_true]
    by_cases aligned : chunk.x.length = chunk.y.length
    · obtain ⟨next, absorbed, tallied⟩ := tallies.consume chunk aligned
      rw [if_pos aligned, absorbed]
      exact tallied
    · rw [if_neg aligned, CovarianceState.consume_misaligned _ aligned]
      rfl
  merge := Tallies.merge

end CovarianceState

namespace CorrelationState

/-- The covariance tallies, and the state knows whether it holds a chunk. -/
structure Tallies (ledger : Ledger) (state : CorrelationState ε α) : Prop where
  covariance : state.covariance.Tallies ledger
  consumed : state.consumed = !ledger.entries.isEmpty

theorem of_ledger_tallies (ledger : Ledger) :
    (ofLedger ledger : CorrelationState ε ℚ).Tallies ledger :=
  ⟨CovarianceState.of_ledger_tallies ledger, rfl⟩

theorem Tallies.idle {ledger : Ledger} {state : CorrelationState ε α}
    (tallies : state.Tallies ledger) :
    (state.consumed || state.covariance.moments.count != 0) = !ledger.entries.isEmpty := by
  rw [tallies.consumed, tallies.covariance.count]
  cases unused : ledger.entries with
  | nil => simp [Ledger.pairs, unused]
  | cons => rfl

variable [Scalar α]

theorem Tallies.value_none [SquareRoot α] {ledger : Ledger} {state : CorrelationState ε α}
    (tallies : state.Tallies ledger) : state.value? = none ↔ ledger.admits = false := by
  simp [value?, tallies.covariance.is_admitted]

theorem Tallies.merge {first second : Ledger} {state other : CorrelationState ε α}
    (tallies : state.Tallies first) (otherTallies : other.Tallies second) :
    (state.merge other).Tallies (first.merge second) where
  covariance := tallies.covariance.merge otherTallies.covariance
  consumed := by
    change (state.consumed || other.consumed) = !(first.entries ++ second.entries).isEmpty
    rw [tallies.consumed, otherTallies.consumed]
    cases first.entries <;> rfl

variable [Element ε]

theorem tally_simulation :
    Simulation (Ledger.machine true) (machine (ε := ε) (α := α)) Tallies where
  empty options decimalScale := ⟨.empty options decimalScale, rfl⟩
  consume := by
    intro ledger state tallies chunk
    rw [Ledger.machine_consume, machine_consume, Ledger.consume, Bool.true_and, consume_eq,
      tallies.idle]
    split
    · rfl
    · by_cases aligned : chunk.x.length = chunk.y.length
      · obtain ⟨covariance, absorbed, tallied⟩ := tallies.covariance.consume chunk aligned
        rw [if_pos aligned, absorbed]
        change Tallies _ (if 0 < covariance.moments.count then _ else _)
        -- the two ways differ in the sums of squares, which are not tallied
        split
        · exact ⟨tallied, rfl⟩
        · exact ⟨tallied, rfl⟩
      · rw [if_neg aligned, CovarianceState.consume_misaligned _ aligned]
        rfl
  merge := Tallies.merge

end CorrelationState

end Comoment
