import Comoment.Proofs.Autocorrelation
import Comoment.Proofs.FiniteQuotients

/-!
The last lag of an autocorrelation, which pairs the last slot with the first and no other. The
number of slots less one and the lag is zero there. Every smaller lag is divided by a positive
number and keeps a finite quotient finite, but if both end slots hold a value the last lag has a
result too, and as a double it is never finite.
-/

namespace Comoment

namespace Sequence

variable {ε : Type} {values : Sequence ε}

theorem HasLaggedPair.bounds {lag : Int} (paired : values.HasLaggedPair lag) :
    -values.length < lag ∧ lag < values.length := by
  obtain ⟨index, inside, lower, upper, _⟩ := paired
  omega

theorem has_lagged_pair_last :
    values.HasLaggedPair (values.length - 1) ↔
      0 < values.length ∧ values.isValid 0 = true ∧
        values.isValid (values.length - 1) = true := by
  constructor
  · rintro ⟨index, inside, lower, upper, current, earlier⟩
    have last : index = values.length - 1 := by omega
    have first : ((index : Int) - (values.length - 1)).toNat = 0 := by omega
    rw [first] at earlier
    exact ⟨by omega, earlier, last ▸ current⟩
  · rintro ⟨inside, first, last⟩
    have distance : (((values.length - 1 : Nat) : Int) - (values.length - 1)).toNat = 0 := by omega
    exact ⟨values.length - 1, by omega, by omega, by omega, last, by rwa [distance]⟩

end Sequence

variable {ε α : Type} [Element ε] [Scalar α] {values : Sequence ε}

section Lawful

variable (lawful : values.Lawful) {lag : Int}

include lawful

/-- Only the last lag is divided by zero, and only it makes a finite quotient infinite or not a
number. -/
theorem autocorrelation_finite_iff {lagged whole : Float} (accepted : lag ≤ values.length)
    (covaries : covariance {} values (shift { periods := lag } values).toSequence =
      .ok (some lagged))
    (varies : variance {} values = .ok (some whole)) :
    ∃ value : Float, autocorrelation lag values = .ok (some value) ∧
      (value.isFinite = true ↔ lag ≠ values.length - 1 ∧ (lagged / whole).isFinite = true) := by
  refine ⟨_, autocorrelation_of_values accepted covaries varies, ?_⟩
  by_cases last : lag = values.length - 1
  · have zero : (values.length : Int) - 1 - lag = 0 := by omega
    rw [zero, float_div_zero_not_finite]
    simp [last]
  · have bounds := ((covariance_has_value_iff lawful).mp ⟨lagged, covaries⟩).bounds
    have positive : 0 < (values.length : Int) - 1 - lag := by omega
    rw [float_div_of_int_finite _ positive]
    simp [last]

end Lawful

theorem divisor_nonzero_iff {values : Sequence ε} (lawful : values.Lawful) (Given : Int → Prop) :
    (∀ lag : Int, Given lag → lag ≤ values.length →
        (∃ lagged : α,
          covariance {} values (shift { periods := lag } values).toSequence = .ok (some lagged)) →
        (∃ whole : α, variance {} values = .ok (some whole)) →
          (values.length : Int) - 1 - lag ≠ 0) ↔
      ¬(Given (values.length - 1) ∧ 0 < values.length ∧ values.isValid 0 = true ∧
        values.isValid (values.length - 1) = true) := by
  rw [← Sequence.has_lagged_pair_last]
  constructor
  · rintro nonzero ⟨given, paired⟩
    exact nonzero (values.length - 1) given (by omega)
      ((covariance_has_value_iff lawful).mpr paired) (variance_has_value lawful paired)
      (Int.sub_self _)
  · intro unpaired lag given _ covaries _ zero
    have atLast : lag = values.length - 1 := by omega
    rw [← atLast] at unpaired
    exact unpaired ⟨given, (covariance_has_value_iff lawful).mp covaries⟩

/-- For lags within the length for which covariance and variance have a value, the final divisor is
never zero exactly if the first or the last slot is null, or, among lags of 32 bits, the sequence
too long for them. Otherwise the lag of one less than the length is divided by zero, and as a double
its result is never finite. All other lags are divided by a positive number, and their result is
finite exactly if the quotient of covariance and variance is. -/
theorem autocorrelation_never_divides_by_zero_iff {values : Sequence ε} (lawful : values.Lawful) :
    let last : Int := values.length - 1
    let earlier (lag : Int) := (shift { periods := lag } values).toSequence
    ((∀ lag : Int, lag ≤ values.length →
        (∃ lagged : α, covariance {} values (earlier lag) = .ok (some lagged)) →
        (∃ whole : α, variance {} values = .ok (some whole)) → last - lag ≠ 0) ↔
      ¬(0 < values.length ∧ values.isValid 0 = true ∧
        values.isValid (values.length - 1) = true)) ∧
      ((∀ lag : Int, -2 ^ 31 ≤ lag ∧ lag < 2 ^ 31 → lag ≤ values.length →
        (∃ lagged : α, covariance {} values (earlier lag) = .ok (some lagged)) →
        (∃ whole : α, variance {} values = .ok (some whole)) → last - lag ≠ 0) ↔
      ¬(values.length ≤ 2 ^ 31 ∧ 0 < values.length ∧ values.isValid 0 = true ∧
        values.isValid (values.length - 1) = true)) ∧
      (∀ (lag : Int) (lagged whole : α), lag ≤ values.length →
        covariance {} values (earlier lag) = .ok (some lagged) →
        variance {} values = .ok (some whole) →
          autocorrelation lag values = .ok (some (lagged / whole / Scalar.ofInt (last - lag))) ∧
            (lag ≠ last → 0 < last - lag)) ∧
      ∀ (lag : Int) (lagged whole : Float), lag ≤ values.length →
        covariance {} values (earlier lag) = .ok (some lagged) →
        variance {} values = .ok (some whole) →
          ∃ value : Float, autocorrelation lag values = .ok (some value) ∧
            (value.isFinite = true ↔ lag ≠ last ∧ (lagged / whole).isFinite = true) := by
  intro last earlier
  refine ⟨?_, ?_, ?_, ?_⟩
  · have every := divisor_nonzero_iff (α := α) lawful fun _ => True
    simpa only [true_implies, true_and] using every
  · refine (divisor_nonzero_iff lawful _).trans (not_congr (and_congr_left ?_))
    rintro ⟨nonempty, _⟩
    omega
  · intro lag lagged whole accepted covaries varies
    have bounds := ((covariance_has_value_iff lawful).mp ⟨lagged, covaries⟩).bounds
    refine ⟨autocorrelation_of_values accepted covaries varies, ?_⟩
    intro inner
    omega
  · intro lag lagged whole accepted covaries varies
    exact autocorrelation_finite_iff lawful accepted covaries varies

/-- Both end slots hold a value, the first one is null, and a lag before the last one. -/
theorem autocorrelation_never_divides_by_zero_iff_ends :
    let ends := Sequence.ofOptions #[some (1 : Int8), none, some 3]
    let late := Sequence.ofOptions #[none, some (1 : Int8), some 3]
    let full := Sequence.ofOptions #[some (1 : Int8), some 3, some 1, some 3, some 1, some 3]
    ends.Lawful ∧ late.Lawful ∧ full.Lawful ∧
      (∃ value : Float, autocorrelation 2 ends = .ok (some value) ∧ value.isFinite = false) ∧
      (∀ lag : Int, lag ≤ 3 →
        (∃ lagged : Float, covariance {} late (shift { periods := lag } late).toSequence =
          .ok (some lagged)) →
        (∃ whole : Float, variance {} late = .ok (some whole)) → 3 - 1 - lag ≠ 0) ∧
      autocorrelation 2 full = .ok (some (1 / 3 : ℚ)) ∧
      ∃ value : Float, autocorrelation 2 full = .ok (some value) ∧ value.isFinite = true := by
  intro ends late full
  have endsLawful : ends.Lawful := Sequence.of_options_lawful _
  have lateLawful : late.Lawful := Sequence.of_options_lawful _
  have fullLawful : full.Lawful := Sequence.of_options_lawful _
  have atEnds := (autocorrelation_never_divides_by_zero_iff (α := Float) endsLawful).2.2.2
  have divided := (autocorrelation_never_divides_by_zero_iff (α := Float) lateLawful).1.mpr
  have inner := autocorrelation_never_divides_by_zero_iff (α := ℚ) fullLawful
  refine ⟨endsLawful, lateLawful, fullLawful, ?_, divided (by decide), ?_, ?_⟩
  · obtain ⟨value, found, finite⟩ := atEnds 2 (0 : Float) (1 : Float) (by decide)
      (by decide +kernel) (by decide +kernel)
    refine ⟨value, found, Bool.eq_false_iff.mpr fun holds => ?_⟩
    exact (finite.mp holds).1 rfl
  · refine ((inner.2.2.1 2 1 1 (by decide) (by decide +kernel) (by decide +kernel)).1).trans ?_
    decide +kernel
  · obtain ⟨value, found, finite⟩ := inner.2.2.2 2 (1 : Float) (1 : Float) (by decide)
      (by decide +kernel) (by decide +kernel)
    exact ⟨value, found, finite.mpr ⟨by decide, by decide +kernel⟩⟩

/-- The values one and two have a covariance at lag one and a variance, and the autocorrelation
divides zero by zero. -/
theorem last_lag_of_two_values :
    let values := Sequence.ofArray #[(1 : Float), 2]
    values.Lawful ∧ (1 : Int) ≤ values.length ∧
      covariance {} values (shift { periods := 1 } values).toSequence =
        .ok (some (0 : Float)) ∧
      variance {} values = .ok (some (0.25 : Float)) ∧ (values.length : Int) - 1 - 1 = 0 ∧
      ∃ value : Float, autocorrelation 1 values = .ok (some value) ∧ value.isNaN = true := by
  refine ⟨Sequence.of_array_lawful _, by decide, by decide +kernel, by decide +kernel, rfl, ?_⟩
  exact ⟨0.0 / 0.0, by decide +kernel, by decide +kernel⟩

end Comoment
