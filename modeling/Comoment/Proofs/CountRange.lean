import Comoment.Proofs.MachineIntegers
import Comoment.Proofs.Tallies

/-!
Counts of pairs in 64 bits. States are repeated with a check that the count of a chunk, the sum of
two counts and the divisor fit a signed integer. A program loses exactly the registers whose ledgers
have too many pairs. The divisor of the others fits unless the correction is far below zero.
-/

namespace Comoment

variable {ε α : Type}

def ifCounted {σ : Type} (count : σ → Int) (state : σ) : Option σ :=
  if count state < 2 ^ 63 then some state else none

/-- A state beside its copy in machine integers, which is lost when the count does not fit. -/
structure InRange {σ : Type} (count : σ → Int) (state : σ) (copy : Option σ) : Prop where
  nonneg : 0 ≤ count state
  copy_eq : copy = ifCounted count state

theorem InRange.cases {σ : Type} {count : σ → Int} {state : σ} {copy : Option σ}
    (inRange : InRange count state copy) :
    count state < 2 ^ 63 ∧ copy = some state ∨ ¬count state < 2 ^ 63 ∧ copy = none := by
  rw [inRange.copy_eq, ifCounted]
  by_cases fits : count state < 2 ^ 63
  · exact .inl ⟨fits, if_pos fits⟩
  · exact .inr ⟨fits, if_neg fits⟩

theorem InRange.merge {σ : Type} {count : σ → Int} {merge : σ → σ → σ}
    {checked : σ → σ → Option σ} (total : ∀ a b, count (merge a b) = count a + count b)
    (range : ∀ a b, 0 ≤ count a → 0 ≤ count b → count a < 2 ^ 63 → count b < 2 ^ 63 →
      checked a b = ifCounted count (merge a b))
    {first second : σ} {copy other : Option σ} (firstInRange : InRange count first copy)
    (secondInRange : InRange count second other) :
    InRange count (merge first second) (copy.bind fun a => other.bind fun b => checked a b) := by
  have firstNonneg := firstInRange.nonneg
  have secondNonneg := secondInRange.nonneg
  have sum := total first second
  refine ⟨by omega, ?_⟩
  rcases firstInRange.cases with ⟨firstFits, rfl⟩ | ⟨firstLost, rfl⟩
  · rcases secondInRange.cases with ⟨secondFits, rfl⟩ | ⟨secondLost, rfl⟩
    · exact range first second firstNonneg secondNonneg firstFits secondFits
    · exact (if_neg (by omega)).symm
  · exact (if_neg (by omega)).symm

variable [Scalar α]

namespace Moments

theorem merge_checked_range {first second : Moments α} (firstNonneg : 0 ≤ first.count)
    (secondNonneg : 0 ≤ second.count) (firstFits : first.count < 2 ^ 63)
    (secondFits : second.count < 2 ^ 63) :
    first.mergeChecked second = ifCounted count (first.merge second) := by
  have total := merge_count first second
  by_cases fits : (first.merge second).count < 2 ^ 63
  · rw [ifCounted, if_pos fits]
    exact merge_checked_eq (by omega) (by omega)
  · have large : 2 ^ 63 ≤ first.count + second.count := by omega
    rw [ifCounted, if_neg fits, mergeChecked, if_neg (by omega), if_neg (by omega),
      signed_eq_none large]
    rfl

def addChecked (moments chunk : Moments α) : Option (Moments α) := do
  let _ ← signed 64 chunk.count
  moments.mergeChecked chunk

theorem add_checked_range {moments chunk : Moments α} (nonneg : 0 ≤ moments.count)
    (chunkNonneg : 0 ≤ chunk.count) (fits : moments.count < 2 ^ 63) :
    moments.addChecked chunk = ifCounted count (moments.merge chunk) := by
  unfold addChecked
  by_cases chunkFits : chunk.count < 2 ^ 63
  · rw [signed_eq_some (by omega), ← merge_checked_range nonneg chunkNonneg fits chunkFits]
    rfl
  · have total := merge_count moments chunk
    have large : ¬(moments.merge chunk).count < 2 ^ 63 := by omega
    rw [signed_eq_none (by omega), ifCounted, if_neg large]
    rfl

end Moments

namespace CovarianceState

def count (state : CovarianceState ε α) : Int := state.moments.count

def mergeChecked (first second : CovarianceState ε α) : Option (CovarianceState ε α) :=
  (first.moments.mergeChecked second.moments).map fun moments =>
    { first with moments := moments, allValid := first.allValid && second.allValid }

theorem merge_checked_range {first second : CovarianceState ε α} (firstNonneg : 0 ≤ first.count)
    (secondNonneg : 0 ≤ second.count) (firstFits : first.count < 2 ^ 63)
    (secondFits : second.count < 2 ^ 63) :
    first.mergeChecked second = ifCounted count (first.merge second) := by
  unfold mergeChecked
  rw [Moments.merge_checked_range firstNonneg secondNonneg firstFits secondFits]
  unfold ifCounted
  change Option.map _ _ = if (first.moments.merge second.moments).count < 2 ^ 63 then _ else _
  split <;> rfl

theorem merge_count (first second : CovarianceState ε α) :
    (first.merge second).count = first.count + second.count :=
  Moments.merge_count first.moments second.moments

def divisorChecked (state : CovarianceState ε α) : Option α :=
  (signed 64 (state.count - state.options.ddof)).map Scalar.ofInt

def valueChecked (state : CovarianceState ε α) : Option (Option α) :=
  if state.isAdmitted then
    state.divisorChecked.map fun divisor => some (state.moments.comoment / divisor)
  else some none

def DivisorFits (state : CovarianceState ε α) : Prop :=
  state.isAdmitted = true → state.count - state.options.ddof < 2 ^ 63

theorem divisor_checked_fits {state : CovarianceState ε α} (admitted : state.isAdmitted = true)
    (fits : state.DivisorFits) : state.divisorChecked = some state.divisor := by
  have small := fits admitted
  simp only [isAdmitted, VarianceOptions.admits, Bool.and_eq_true, decide_eq_true_eq] at admitted
  have positive : state.options.ddof < state.count := admitted.1.1
  unfold divisorChecked
  rw [signed_eq_some (by omega)]
  rfl

theorem divisor_checked_lost {state : CovarianceState ε α} (lost : ¬state.DivisorFits) :
    state.divisorChecked = none := by
  have large : ¬state.count - state.options.ddof < 2 ^ 63 := fun small => lost fun _ => small
  unfold divisorChecked
  rw [signed_eq_none (by omega)]
  rfl

theorem divided_checked_iff (state : CovarianceState ε α) (value : α → α) :
    (if state.isAdmitted then state.divisorChecked.map fun divisor => some (value divisor)
        else some none) =
        some (if state.isAdmitted then some (value state.divisor) else none) ↔
      state.DivisorFits := by
  by_cases admitted : state.isAdmitted = true
  · rw [if_pos admitted, if_pos admitted]
    constructor
    · intro kept
      by_contra lost
      rw [divisor_checked_lost lost] at kept
      cases kept
    · intro fits
      rw [divisor_checked_fits admitted fits]
      rfl
  · rw [if_neg admitted, if_neg admitted]
    exact ⟨fun _ held => absurd held admitted, fun _ => rfl⟩

theorem value_checked_iff (state : CovarianceState ε α) :
    state.valueChecked = some state.value? ↔ state.DivisorFits :=
  state.divided_checked_iff fun divisor => state.moments.comoment / divisor

variable [Element ε]

def consumeChecked (state : CovarianceState ε α) (x y : Sequence ε) :
    Except Error (Option (CovarianceState ε α)) :=
  if x.length = y.length then
    let chunkValid := decide (x.nullCount = 0) && decide (y.nullCount = 0)
    let moments :=
      if chunkValid || state.options.skipNulls then
        state.moments.addChecked (Element.moments state.decimalScale x y)
      else some state.moments
    .ok <| moments.map fun moments =>
      { state with moments := moments, allValid := state.allValid && chunkValid }
  else .error (.lengthMismatch x.length y.length)

theorem consume_checked_range {state : CovarianceState ε α} (nonneg : 0 ≤ state.count)
    (fits : state.count < 2 ^ 63) (chunk : Chunk ε) :
    state.consumeChecked chunk.x chunk.y =
      (state.consume chunk.x chunk.y).map (ifCounted count) := by
  have stored := Element.moments_count (α := α) chunk.xLawful chunk.yLawful state.decimalScale
  have range := Moments.add_checked_range nonneg (stored.symm ▸ Int.natCast_nonneg _) fits
  unfold consumeChecked
  rw [consume_eq]
  split
  · refine congrArg Except.ok ?_
    rw [range]
    split
    · change Option.map _ _ = ite ((state.moments.merge _).count < 2 ^ 63) _ _
      unfold ifCounted
      split <;> rfl
    · exact (if_pos fits).symm
  · rfl

theorem consume_aligned (state : CovarianceState ε α) {x y : Sequence ε}
    (aligned : x.length = y.length) : ∃ next, state.consume x y = .ok next := by
  rw [consume_eq, if_pos aligned]
  exact ⟨_, rfl⟩

theorem consume_count_le {state next : CovarianceState ε α} {chunk : Chunk ε}
    (absorbed : state.consume chunk.x chunk.y = .ok next) : state.count ≤ next.count := by
  have stored := Element.moments_count (α := α) chunk.xLawful chunk.yLawful state.decimalScale
  rw [consume_eq] at absorbed
  split at absorbed
  · cases absorbed
    change state.moments.count ≤ (ite _ _ _ : Moments α).count
    split
    · rw [Moments.merge_count, stored]
      omega
    · exact Int.le_refl _
  · cases absorbed

/-- A lost state still takes chunks of one length and refuses the others. -/
def consumeCopy (copy : Option (CovarianceState ε α)) (chunk : Chunk ε) :
    Except Error (Option (CovarianceState ε α)) :=
  match copy with
  | some state => state.consumeChecked chunk.x chunk.y
  | none =>
    if chunk.x.length = chunk.y.length then .ok none
    else .error (.lengthMismatch chunk.x.length chunk.y.length)

def copies : Machine ε (Option (CovarianceState ε α)) :=
  .ofOutcomes (fun options decimalScale => some (empty options decimalScale)) consumeCopy
    fun first second => first.bind fun a => second.bind fun b => a.mergeChecked b

theorem range_simulation :
    Simulation (machine (ε := ε) (α := α)) copies (InRange count) where
  empty _ _ := ⟨Int.le_refl 0, rfl⟩
  consume := by
    intro state copy inRange chunk
    have nonneg := inRange.nonneg
    rw [copies, Machine.of_outcomes_consume, machine_consume]
    rcases inRange.cases with ⟨fits, rfl⟩ | ⟨lost, rfl⟩
    · rw [consumeCopy, consume_checked_range nonneg fits]
      cases absorbed : state.consume chunk.x chunk.y with
      | error refusal => rfl
      | ok next => exact ⟨Int.le_trans nonneg (consume_count_le absorbed), rfl⟩
    · rw [consumeCopy]
      by_cases aligned : chunk.x.length = chunk.y.length
      · obtain ⟨next, absorbed⟩ := state.consume_aligned aligned
        have grows := consume_count_le absorbed
        rw [absorbed, if_pos aligned]
        exact ⟨by omega, (if_neg (by omega)).symm⟩
      · rw [consume_misaligned _ aligned, if_neg aligned]
        rfl
  merge first second := first.merge merge_count (fun _ _ => merge_checked_range) second

end CovarianceState

namespace CorrelationState

def count (state : CorrelationState ε α) : Int := state.covariance.count

def mergeChecked (first second : CorrelationState ε α) : Option (CorrelationState ε α) :=
  (first.covariance.mergeChecked second.covariance).map fun covariance =>
    { first.merge second with covariance }

theorem merge_checked_range {first second : CorrelationState ε α} (firstNonneg : 0 ≤ first.count)
    (secondNonneg : 0 ≤ second.count) (firstFits : first.count < 2 ^ 63)
    (secondFits : second.count < 2 ^ 63) :
    first.mergeChecked second = ifCounted count (first.merge second) := by
  unfold mergeChecked
  rw [CovarianceState.merge_checked_range firstNonneg secondNonneg firstFits secondFits]
  change Option.map _ (ite _ _ _) =
    if (first.covariance.merge second.covariance).count < 2 ^ 63 then _ else _
  split <;> rfl

def valueChecked [SquareRoot α] (state : CorrelationState ε α) : Option (Option α) :=
  if state.covariance.isAdmitted then
    state.covariance.divisorChecked.map fun divisor =>
      let deviationX := SquareRoot.sqrt (state.squaresX / divisor)
      let deviationY := SquareRoot.sqrt (state.squaresY / divisor)
      some (state.covariance.moments.comoment / divisor / (deviationX * deviationY))
  else some none

theorem value_checked_iff [SquareRoot α] (state : CorrelationState ε α) :
    state.valueChecked = some state.value? ↔ state.covariance.DivisorFits :=
  state.covariance.divided_checked_iff fun divisor =>
    state.covariance.moments.comoment / divisor /
      (SquareRoot.sqrt (state.squaresX / divisor) * SquareRoot.sqrt (state.squaresY / divisor))

variable [Element ε]

theorem holding_count (state : CorrelationState ε α) (covariance : CovarianceState ε α)
    (x y : Sequence ε) : (state.holding covariance x y).count = covariance.count := by
  unfold holding
  dsimp only
  split <;> rfl

def consumeChecked (state : CorrelationState ε α) (x y : Sequence ε) :
    Except Error (Option (CorrelationState ε α)) :=
  if state.consumed || state.covariance.moments.count != 0 then .error .alreadyConsumed
  else (state.covariance.consumeChecked x y).map fun covariance? =>
    covariance?.map fun covariance => state.holding covariance x y

theorem consume_checked_range {state : CorrelationState ε α} (nonneg : 0 ≤ state.count)
    (fits : state.count < 2 ^ 63) (chunk : Chunk ε) :
    state.consumeChecked chunk.x chunk.y =
      (state.consume chunk.x chunk.y).map (ifCounted count) := by
  unfold consumeChecked
  rw [consume_eq, CovarianceState.consume_checked_range nonneg fits]
  split
  · rfl
  · cases state.covariance.consume chunk.x chunk.y with
    | error refusal => rfl
    | ok covariance =>
      refine congrArg Except.ok ?_
      unfold ifCounted
      rw [holding_count]
      split <;> rfl

theorem consume_nonneg {state next : CorrelationState ε α} (nonneg : 0 ≤ state.count)
    {chunk : Chunk ε} (absorbed : state.consume chunk.x chunk.y = .ok next) : 0 ≤ next.count := by
  rw [consume_eq] at absorbed
  split at absorbed
  · cases absorbed
  · cases counted : state.covariance.consume chunk.x chunk.y with
    | error refusal =>
      rw [counted] at absorbed
      cases absorbed
    | ok covariance =>
      rw [counted] at absorbed
      cases absorbed
      rw [holding_count]
      exact Int.le_trans nonneg (CovarianceState.consume_count_le counted)

/-- A lost state has pairs and so takes no chunk. -/
def consumeCopy (copy : Option (CorrelationState ε α)) (chunk : Chunk ε) :
    Except Error (Option (CorrelationState ε α)) :=
  match copy with
  | some state => state.consumeChecked chunk.x chunk.y
  | none => .error .alreadyConsumed

def copies : Machine ε (Option (CorrelationState ε α)) :=
  .ofOutcomes (fun options decimalScale => some (empty options decimalScale)) consumeCopy
    fun first second => first.bind fun a => second.bind fun b => a.mergeChecked b

theorem range_simulation :
    Simulation (machine (ε := ε) (α := α)) copies (InRange count) where
  empty _ _ := ⟨Int.le_refl 0, rfl⟩
  consume := by
    intro state copy inRange chunk
    have nonneg := inRange.nonneg
    rw [copies, Machine.of_outcomes_consume, machine_consume]
    rcases inRange.cases with ⟨fits, rfl⟩ | ⟨lost, rfl⟩
    · rw [consumeCopy, consume_checked_range nonneg fits]
      cases absorbed : state.consume chunk.x chunk.y with
      | error refusal => rfl
      | ok next => exact ⟨consume_nonneg nonneg absorbed, rfl⟩
    · have pairs : (state.consumed || state.covariance.moments.count != 0) = true := by
        have counted : state.covariance.moments.count ≠ 0 := by
          intro none
          change ¬state.covariance.moments.count < 2 ^ 63 at lost
          omega
        rw [bne_iff_ne.mpr counted, Bool.or_true]
      rw [consume_eq, if_pos pairs]
      rfl
  merge first second := first.merge
    (fun a b => CovarianceState.merge_count a.covariance b.covariance)
    (fun _ _ => merge_checked_range) second

end CorrelationState

variable [Element ε]

theorem counts_in_range {σ : Type} {single : Bool} {machine : Machine ε σ}
    {copies : Machine ε (Option σ)} {Related : Ledger → σ → Prop} {count : σ → Int}
    (tally : Simulation (Ledger.machine single) machine Related)
    (counted : ∀ {ledger state}, Related ledger state → count state = ledger.pairs.card)
    (range : Simulation machine copies (InRange count)) (program : List (Instruction ε)) :
    (copies.run program).answers = (machine.run program).answers ∧
      ∀ register ledger,
        ((Ledger.machine single).run program).registers register = some ledger →
          ∃ state, (machine.run program).registers register = some state ∧ Related ledger state ∧
            (copies.run program).registers register =
              some (if ledger.pairs.card < 2 ^ 63 then some state else none) := by
  obtain ⟨inRange, answers⟩ := range.run program
  refine ⟨answers.symm, ?_⟩
  intro register ledger found
  rcases (tally.run program).1.held register with
    ⟨absent, _⟩ | ⟨tallied, state, ledgerHeld, stateHeld, related⟩
  · rw [found] at absent
    cases absent
  · obtain rfl : tallied = ledger := Option.some.inj (ledgerHeld.symm.trans found)
    rcases inRange.held register with ⟨absent, _⟩ | ⟨_, copy, sameHeld, copyHeld, bounded⟩
    · rw [stateHeld] at absent
      cases absent
    · obtain rfl := Option.some.inj (sameHeld.symm.trans stateHeld)
      have total := counted related
      refine ⟨_, stateHeld, related, ?_⟩
      rw [copyHeld, bounded.copy_eq, ifCounted, total]
      norm_cast

/-- The divisor fits, if there is a value to divide. -/
def Ledger.DivisorFits (ledger : Ledger) : Prop :=
  ledger.admits = true → ledger.pairs.card - ledger.options.ddof < 2 ^ 63

theorem Ledger.divisor_fits {ledger : Ledger} (few : ledger.pairs.card < 2 ^ 63)
    (correction : 0 ≤ ledger.options.ddof) : ledger.DivisorFits := by
  intro _
  omega

omit [Scalar α] [Element ε] in
theorem CovarianceState.Tallies.divisor_fits {ledger : Ledger} {state : CovarianceState ε α}
    (tallies : state.Tallies ledger) : state.DivisorFits ↔ ledger.DivisorFits := by
  have total : state.count = ledger.pairs.card := tallies.count
  rw [CovarianceState.DivisorFits, Ledger.DivisorFits, tallies.is_admitted, tallies.options, total]

/-- In 64 bits the covariance of a program is lost in the registers with 2 ^ 63 pairs or more. In
the others the value is lost with its divisor, which takes a correction below zero. -/
theorem covariance_counts_in_range (program : List (Instruction ε)) :
    let states := (CovarianceState.machine (α := α)).run program
    let copies := (CovarianceState.copies (α := α)).run program
    let ledgers := (Ledger.machine false).run program
    copies.answers = states.answers ∧
      ∀ register ledger, ledgers.registers register = some ledger →
        ∃ state, states.registers register = some state ∧
          copies.registers register =
            some (if ledger.pairs.card < 2 ^ 63 then some state else none) ∧
          (state.valueChecked = some state.value? ↔ ledger.DivisorFits) := by
  intro states copies ledgers
  obtain ⟨answers, registers⟩ := counts_in_range CovarianceState.tally_simulation
    (fun tallies => tallies.count) (CovarianceState.range_simulation (ε := ε) (α := α)) program
  refine ⟨answers, ?_⟩
  intro register ledger found
  obtain ⟨state, held, tallies, copied⟩ := registers register ledger found
  exact ⟨state, held, copied, state.value_checked_iff.trans tallies.divisor_fits⟩

theorem correlation_counts_in_range [SquareRoot α] (program : List (Instruction ε)) :
    let states := (CorrelationState.machine (α := α)).run program
    let copies := (CorrelationState.copies (α := α)).run program
    let ledgers := (Ledger.machine true).run program
    copies.answers = states.answers ∧
      ∀ register ledger, ledgers.registers register = some ledger →
        ∃ state, states.registers register = some state ∧
          copies.registers register =
            some (if ledger.pairs.card < 2 ^ 63 then some state else none) ∧
          (state.valueChecked = some state.value? ↔ ledger.DivisorFits) := by
  intro states copies ledgers
  obtain ⟨answers, registers⟩ := counts_in_range CorrelationState.tally_simulation
    (fun tallies => tallies.covariance.count) (CorrelationState.range_simulation (ε := ε) (α := α))
    program
  refine ⟨answers, ?_⟩
  intro register ledger found
  obtain ⟨state, held, tallies, copied⟩ := registers register ledger found
  exact ⟨state, held, copied, state.value_checked_iff.trans tallies.covariance.divisor_fits⟩

/-- Two pairs and the lowest correction leave a divisor that does not fit. -/
example :
    let chunk := Chunk.ofOptions #[some (1 : Int8), some 2] #[some 1, some 2]
    let options : VarianceOptions := { ddof := -9223372036854775808 }
    let state := CovarianceState.empty (α := ℚ) options 0
    (state.consume chunk.x chunk.y).map CovarianceState.valueChecked = .ok none := by
  decide +kernel

end Comoment
