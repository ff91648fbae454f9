import Comoment.Proofs.Absorption
import Mathlib.Algebra.Order.BigOperators.Group.Multiset
import Mathlib.Algebra.Order.BigOperators.Ring.Finset
import Mathlib.Analysis.Real.Sqrt
import Mathlib.Data.Multiset.Fintype

/-!
The range of a correlation without rounding. A state holds the moments of the pairs in its ledger,
so the square of the sum of products is at most the product of both sums of squares, whichever
merges led to it; chunks that pair values with themselves have the three sums equal.
-/

namespace Comoment

theorem deviation_squares_nonneg (values : Multiset ℚ) (center : ℚ) :
    0 ≤ deviationSquares values center := by
  apply Multiset.sum_nonneg
  intro square found
  obtain ⟨value, _, rfl⟩ := Multiset.mem_map.mp found
  exact sq_nonneg _

theorem eq_of_no_deviation {values : Multiset ℚ} {center : ℚ}
    (none : deviationSquares values center = 0) {value : ℚ} (found : value ∈ values) :
    value = center := by
  have nonneg : ∀ square ∈ values.map fun value => (value - center) ^ 2, 0 ≤ square := by
    intro square listed
    obtain ⟨value, _, rfl⟩ := Multiset.mem_map.mp listed
    exact sq_nonneg _
  have zero : (value - center) ^ 2 = 0 :=
    Multiset.all_zero_of_le_zero_le_of_sum_eq_zero nonneg none _
      (Multiset.mem_map_of_mem _ found)
  exact sub_eq_zero.mp (pow_eq_zero_iff two_ne_zero |>.mp zero)

/-- The Cauchy-Schwarz inequality for deviations from two centers. -/
theorem deviation_products_sq_le (pairs : Multiset (ℚ × ℚ)) (centerX centerY : ℚ) :
    deviationProducts pairs centerX centerY ^ 2 ≤
      deviationSquares (pairs.map Prod.fst) centerX *
        deviationSquares (pairs.map Prod.snd) centerY := by
  -- the inequality of the library is about sums over finite sets, here over the members of `pairs`
  have indexed : ∀ term : ℚ × ℚ → ℚ, (pairs.map term).sum = ∑ member : pairs, term member := by
    intro term
    rw [Finset.sum, Multiset.map_univ]
  unfold deviationProducts deviationSquares
  rw [Multiset.map_map, Multiset.map_map, indexed, indexed, indexed]
  exact Finset.sum_mul_sq_le_sq_mul_sq Finset.univ _ _

/-- Pairs of equal components have one mean, and their products of deviations are squares. -/
theorem deviations_of_equal_components {pairs : Multiset (ℚ × ℚ)}
    (equal : ∀ pair ∈ pairs, pair.1 = pair.2) :
    pairs.map Prod.fst = pairs.map Prod.snd ∧
      ∀ center, deviationProducts pairs center center =
        deviationSquares (pairs.map Prod.fst) center := by
  refine ⟨Multiset.map_congr rfl equal, fun center => ?_⟩
  unfold deviationProducts deviationSquares
  rw [Multiset.map_map]
  congr 1
  apply Multiset.map_congr rfl
  intro pair found
  rw [← equal pair found, Function.comp_apply, pow_two]

/-- A correlation from the sum of products, both sums of squares, and what these are divided by. -/
noncomputable def realCorrelation (product squaresX squaresY divisor : ℝ) : ℝ :=
  product / divisor / (√(squaresX / divisor) * √(squaresY / divisor))

section Ratio

variable {product squaresX squaresY divisor : ℝ} (positive : 0 < divisor)

include positive

theorem root_product (nonneg : 0 ≤ squaresX) :
    √(squaresX / divisor) * √(squaresY / divisor) = √(squaresX * squaresY) / divisor := by
  have radicand : squaresX / divisor * (squaresY / divisor) =
      squaresX * squaresY / divisor ^ 2 := by
    field_simp
  rw [← Real.sqrt_mul (div_nonneg nonneg positive.le), radicand, Real.sqrt_div' _ (sq_nonneg _),
    Real.sqrt_sq positive.le]

theorem real_correlation_bounded (nonneg : 0 ≤ squaresX)
    (bounded : product ^ 2 ≤ squaresX * squaresY) :
    |realCorrelation product squaresX squaresY divisor| ≤ 1 := by
  rw [realCorrelation, root_product positive nonneg, div_div_div_cancel_right₀ positive.ne',
    abs_div, abs_of_nonneg (Real.sqrt_nonneg _)]
  exact div_le_one_of_le₀ (Real.abs_le_sqrt bounded) (Real.sqrt_nonneg _)

theorem real_correlation_self (varied : 0 < squaresX) :
    realCorrelation squaresX squaresX squaresX divisor = 1 := by
  have quotient : 0 < squaresX / divisor := div_pos varied positive
  rw [realCorrelation, Real.mul_self_sqrt quotient.le, div_self quotient.ne']

end Ratio

noncomputable instance : Scalar ℝ where
  ofInt value := value
  ofSingle value := (exactFloat value.toModel.unpack : ℚ)
  ofDouble value := (exactFloat value.toModel.unpack : ℚ)
  tenPower exponent := 10 ^ exponent

noncomputable instance : SquareRoot ℝ where
  sqrt := Real.sqrt

variable {ε : Type} [Element ε]

namespace Ledger

theorem row_pair_equal {row : Option ℚ × Option ℚ} (same : row.1 = row.2) {pair : ℚ × ℚ}
    (read : rowPair? row = some pair) : pair.1 = pair.2 := by
  obtain ⟨left, right⟩ := row
  cases left with
  | none => simp [rowPair?] at read
  | some a =>
    cases same
    simp only [rowPair?, Option.bind_some, Option.map_some, Option.some.injEq] at read
    rw [← read]

theorem pairs_equal {ledger : Ledger}
    (same : ∀ entry ∈ ledger.entries, ∀ row ∈ entry.rows, row.1 = row.2) :
    ∀ pair ∈ ledger.pairs, pair.1 = pair.2 := by
  intro pair found
  rw [pairs, ← Multiset.sum_coe] at found
  obtain ⟨share, listed, inside⟩ := Multiset.mem_join.mp found
  obtain ⟨entry, absorbed, rfl⟩ := List.mem_map.mp (Multiset.mem_coe.mp listed)
  unfold Entry.pairs at inside
  split at inside
  · exact absurd inside (Multiset.notMem_zero pair)
  · obtain ⟨row, held, read⟩ := List.mem_filterMap.mp (Multiset.mem_coe.mp inside)
    exact row_pair_equal (same entry absorbed row held) read

/-- The entries of a ledger are the rows of the chunks of a past, each at the scale of the state
that absorbed it. -/
def Records (past : Past ε) (ledger : Ledger) : Prop :=
  List.Forall₂ (fun chunk entry => ∃ scale, entry.rows = Chunk.rows scale chunk) past.chunks
    ledger.entries

theorem Records.unused {past : Past ε} {ledger : Ledger} (records : Records past ledger) :
    past.chunks = [] ↔ ledger.entries = [] := by
  rw [← List.length_eq_zero_iff, ← List.length_eq_zero_iff, List.Forall₂.length_eq records]

theorem Records.source {past : Past ε} {ledger : Ledger} (records : Records past ledger)
    {entry : Entry} (absorbed : entry ∈ ledger.entries) :
    ∃ chunk ∈ past.chunks, ∃ scale, entry.rows = Chunk.rows scale chunk := by
  obtain ⟨index, inside, rfl⟩ := List.getElem_of_mem absorbed
  have taken : index < past.chunks.length := List.Forall₂.length_eq records ▸ inside
  exact ⟨past.chunks[index], List.getElem_mem taken, List.Forall₂.get records taken inside⟩

theorem records_simulation :
    Simulation Past.machine (machine (ε := ε) true) Records where
  empty _ _ := .nil
  consume := by
    intro past ledger records chunk
    rw [Past.machine_consume, machine_consume, Past.consume, Ledger.consume]
    simp only [Bool.true_and, Bool.not_eq_true', List.isEmpty_eq_false_iff]
    by_cases unused : past.chunks = []
    · rw [if_neg (not_not.mpr unused), if_neg (not_not.mpr (records.unused.mp unused))]
      by_cases aligned : chunk.x.length = chunk.y.length
      · rw [if_pos aligned, if_pos aligned]
        exact .cons ⟨ledger.decimalScale, rfl⟩ (unused ▸ records)
      · rw [if_neg aligned, if_neg aligned]
        rfl
    · rw [if_pos unused, if_pos (mt records.unused.mpr unused)]
      rfl
  merge first second := List.rel_append first second

end Ledger

namespace Chunk

def PairsItself (chunk : Chunk ε) : Prop := chunk.x.toOptions = chunk.y.toOptions

omit [Element ε] in
theorem PairsItself.get {chunk : Chunk ε} (itself : chunk.PairsItself) {index : Nat}
    (inside : index < chunk.x.length) : chunk.x.get? index = chunk.y.get? index := by
  have slot := congrArg (fun options => options[index]?) itself
  have lengths : chunk.x.length = chunk.y.length := by
    simpa [Sequence.toOptions] using congrArg List.length itself
  simpa [Sequence.toOptions, inside, lengths ▸ inside] using slot

theorem PairsItself.rows {chunk : Chunk ε} (itself : chunk.PairsItself) (scale : Int) :
    ∀ row ∈ chunk.rows scale, row.1 = row.2 := by
  intro row found
  obtain ⟨index, inside, rfl⟩ := List.mem_map.mp found
  exact congrArg (Option.map (Element.exact scale)) (itself.get (List.mem_range.mp inside))

end Chunk

theorem Ledger.Records.pairs_equal {past : Past ε} {ledger : Ledger}
    (records : Ledger.Records past ledger) (itself : ∀ chunk ∈ past.chunks, chunk.PairsItself) :
    ∀ pair ∈ ledger.pairs, pair.1 = pair.2 := by
  apply Ledger.pairs_equal
  intro entry absorbed
  obtain ⟨chunk, taken, scale, rows⟩ := records.source absorbed
  rw [rows]
  exact (itself chunk taken).rows scale

namespace CorrelationState

omit [Element ε]

noncomputable def toReal (state : CorrelationState ε ℚ) : CorrelationState ε ℝ where
  covariance :=
    { moments :=
        { count := state.covariance.moments.count
          meanX := state.covariance.moments.meanX
          meanY := state.covariance.moments.meanY
          comoment := state.covariance.moments.comoment }
      allValid := state.covariance.allValid
      decimalScale := state.covariance.decimalScale
      options := state.covariance.options }
  squaresX := state.squaresX
  squaresY := state.squaresY
  consumed := state.consumed

theorem admitted_divisor {state : CorrelationState ε ℚ}
    (admitted : state.covariance.isAdmitted = true) : 0 < state.covariance.divisor := by
  unfold CovarianceState.isAdmitted VarianceOptions.admits at admitted
  simp only [Bool.and_eq_true, decide_eq_true_eq] at admitted
  exact Int.cast_pos.mpr (Int.sub_pos.mpr admitted.1.1)

theorem to_real_value {state : CorrelationState ε ℚ}
    (admitted : state.covariance.isAdmitted = true) :
    state.toReal.value? =
      some (realCorrelation state.covariance.moments.comoment state.squaresX state.squaresY
        state.covariance.divisor) := by
  have divisor : state.toReal.covariance.divisor = ((state.covariance.divisor : ℚ) : ℝ) :=
    (Rat.cast_intCast _).symm
  have admittedReal : state.toReal.covariance.isAdmitted = true := admitted
  unfold value?
  rw [if_pos admittedReal]
  simp only [divisor]
  rfl

/-- The sums of squares are not negative and bound the sum of products, so that no value divides
by zero or takes the root of a negative number, and a value with both deviations is from -1 to 1. -/
structure Bounded (state : CorrelationState ε ℚ) : Prop where
  squaresX : 0 ≤ state.squaresX
  squaresY : 0 ≤ state.squaresY
  comoment : state.covariance.moments.comoment ^ 2 ≤ state.squaresX * state.squaresY
  divisor : state.covariance.isAdmitted = true → 0 < state.covariance.divisor
  radicands : state.covariance.isAdmitted = true →
    0 ≤ state.squaresX / state.covariance.divisor ∧ 0 ≤ state.squaresY / state.covariance.divisor
  value : state.covariance.isAdmitted = true → state.squaresX ≠ 0 → state.squaresY ≠ 0 →
    ∃ value, state.toReal.value? = some value ∧ -1 ≤ value ∧ value ≤ 1

theorem of_ledger_bounded (ledger : Ledger) :
    (ofLedger ledger : CorrelationState ε ℚ).Bounded := by
  have squaresX : 0 ≤ (ofLedger ledger : CorrelationState ε ℚ).squaresX :=
    deviation_squares_nonneg _ _
  have squaresY : 0 ≤ (ofLedger ledger : CorrelationState ε ℚ).squaresY :=
    deviation_squares_nonneg _ _
  have comoment := deviation_products_sq_le ledger.pairs (mean (ledger.pairs.map Prod.fst))
    (mean (ledger.pairs.map Prod.snd))
  refine ⟨squaresX, squaresY, comoment, admitted_divisor, ?_, ?_⟩
  · intro admitted
    have divisor := admitted_divisor admitted
    exact ⟨div_nonneg squaresX divisor.le, div_nonneg squaresY divisor.le⟩
  · intro admitted _ _
    refine ⟨_, to_real_value admitted, abs_le.mp (real_correlation_bounded ?_ ?_ ?_)⟩
    · exact_mod_cast admitted_divisor admitted
    · exact_mod_cast squaresX
    · exact_mod_cast comoment

/-- The three sums over values that are paired with themselves are one. -/
theorem of_ledger_equal {ledger : Ledger} (equal : ∀ pair ∈ ledger.pairs, pair.1 = pair.2) :
    let state : CorrelationState ε ℚ := ofLedger ledger
    state.covariance.moments.comoment = state.squaresX ∧ state.squaresX = state.squaresY := by
  obtain ⟨components, products⟩ := deviations_of_equal_components equal
  simp only [ofLedger, CovarianceState.ofLedger, Moments.ofPairs, Spread.ofValues, ← components]
  exact ⟨products _, trivial⟩

theorem of_ledger_varied {ledger : Ledger} (equal : ∀ pair ∈ ledger.pairs, pair.1 = pair.2)
    (varied : ∃ first ∈ ledger.pairs, ∃ second ∈ ledger.pairs, first ≠ second) :
    0 < (ofLedger ledger : CorrelationState ε ℚ).squaresX := by
  refine lt_of_le_of_ne (of_ledger_bounded ledger).squaresX fun none => ?_
  obtain ⟨first, firstHeld, second, secondHeld, different⟩ := varied
  have constant : ∀ pair ∈ ledger.pairs, pair.1 = mean (ledger.pairs.map Prod.fst) :=
    fun pair held => eq_of_no_deviation none.symm (Multiset.mem_map_of_mem Prod.fst held)
  have sameX : first.1 = second.1 :=
    (constant first firstHeld).trans (constant second secondHeld).symm
  have sameY : first.2 = second.2 := by
    rw [← equal first firstHeld, sameX, equal second secondHeld]
  exact different (Prod.ext sameX sameY)

theorem of_ledger_one {ledger : Ledger} (equal : ∀ pair ∈ ledger.pairs, pair.1 = pair.2)
    (admitted : (ofLedger ledger : CorrelationState ε ℚ).covariance.isAdmitted = true)
    (varied : ∃ first ∈ ledger.pairs, ∃ second ∈ ledger.pairs, first ≠ second) :
    (ofLedger ledger : CorrelationState ε ℚ).toReal.value? = some 1 := by
  obtain ⟨product, squares⟩ := of_ledger_equal (ε := ε) equal
  have divisor := admitted_divisor admitted
  have positive := of_ledger_varied (ε := ε) equal varied
  rw [to_real_value admitted, product, ← squares]
  refine congrArg some (real_correlation_self ?_ ?_)
  · exact_mod_cast divisor
  · exact_mod_cast positive

end CorrelationState

/-- After every program the sums of a register obey the Cauchy-Schwarz inequality, so its value is
from -1 to 1. A register that took no chunk but such that pair values with themselves has the same
sum three times, and has the value 1 unless all values are equal. -/
theorem correlation_registers_bounded (program : List (Instruction ε)) (register : Nat)
    (state : CorrelationState ε ℚ)
    (held : (CorrelationState.machine.run program).registers register = some state) :
    state.Bounded ∧
      ∃ (past : Past ε) (ledger : Ledger),
        (Past.machine.run program).registers register = some past ∧
          ((Ledger.machine true).run program).registers register = some ledger ∧
          Ledger.Records past ledger ∧
          ((∀ chunk ∈ past.chunks, chunk.PairsItself) →
            state.covariance.moments.comoment = state.squaresX ∧
              state.squaresX = state.squaresY ∧
              (state.covariance.isAdmitted = true →
                (∃ first ∈ ledger.pairs, ∃ second ∈ ledger.pairs, first ≠ second) →
                state.toReal.value? = some 1)) := by
  rw [CorrelationState.simulation.run_eq_map program register, Option.map_eq_some_iff] at held
  obtain ⟨ledger, recorded, rfl⟩ := held
  refine ⟨CorrelationState.of_ledger_bounded ledger, ?_⟩
  rcases (Ledger.records_simulation.run program).1.held register with
    ⟨_, none⟩ | ⟨past, entered, taken, found, records⟩
  · rw [recorded] at none
    cases none
  · rw [recorded, Option.some.injEq] at found
    subst found
    refine ⟨past, ledger, taken, recorded, records, fun itself => ?_⟩
    have equal := records.pairs_equal itself
    obtain ⟨product, squares⟩ := CorrelationState.of_ledger_equal (ε := ε) equal
    exact ⟨product, squares, CorrelationState.of_ledger_one equal⟩

/-- Two chunks that pair values with themselves, in a copy of the register they were merged into. -/
theorem correlation_registers_bounded_copy :
    let head := Chunk.ofOptions #[some (3 : Int8), none] #[some 3, none]
    let tail := Chunk.ofOptions #[some (-5 : Int8), some 4] #[some (-5), some 4]
    let program := [.create 0 { ddof := 1 } 0, .consume 0 head, .create 1 {} 0, .consume 1 tail,
      .merge 0 1, .clone 2 0]
    ∃ state : CorrelationState Int8 ℚ,
      (CorrelationState.machine.run program).registers 2 = some state ∧
        state.toReal.value? = some 1 := by
  intro head tail program
  let ledger : Ledger :=
    ⟨{ ddof := 1 }, 0, [⟨head.rows 0, true⟩, ⟨tail.rows 0, true⟩]⟩
  have held : (CorrelationState.machine.run program).registers 2 =
      some (CorrelationState.ofLedger ledger : CorrelationState Int8 ℚ) :=
    CorrelationState.simulation.run_eq_map program 2
  obtain ⟨-, past, recorded, taken, found, -, equal⟩ :=
    correlation_registers_bounded program 2 _ held
  have chunks : past.chunks = [head, tail] :=
    congrArg Past.chunks (Option.some.inj taken).symm
  have entries : recorded = ledger := (Option.some.inj found).symm
  have itself : ∀ chunk ∈ past.chunks, chunk.PairsItself := by
    rw [chunks]
    simp only [List.forall_mem_cons, List.not_mem_nil, false_implies, implies_true, and_true]
    exact ⟨rfl, rfl⟩
  refine ⟨_, held, (equal itself).2.2 (by decide) ?_⟩
  rw [entries]
  exact ⟨(3, 3), by decide, (4, 4), by decide, by decide⟩

end Comoment
