import Comoment.Proofs.DoubleRounding

/-!
Doubles divided by whole numbers. A quotient by zero is never finite, and a quotient by a positive
number is finite exactly if the dividend is. Two or more takes at least one from the exponent, so
that rounding up stays below infinity, and a quotient by one is not rounded.
-/

namespace Comoment

open Float.Model

theorem log2_shift_left {number : Nat} (some : number ≠ 0) (amount : Nat) :
    (number <<< amount).log2 = number.log2 + amount := by
  induction amount with
  | zero => rfl
  | succ amount ih =>
    have shifted : number <<< amount ≠ 0 := by
      rw [Nat.shiftLeft_eq]
      exact Nat.mul_ne_zero some (Nat.ne_of_gt (Nat.two_pow_pos amount))
    rw [Nat.shiftLeft_succ, Nat.log2_two_mul shifted, ih, Nat.add_assoc]

theorem log2_quotient {dividend divisor : Nat} (some : dividend / divisor ≠ 0)
    (positive : divisor ≠ 0) :
    (dividend / divisor).log2 + divisor.log2 ≤ dividend.log2 := by
  have whole : dividend ≠ 0 := by
    rintro rfl
    exact some (Nat.zero_div divisor)
  rw [Nat.le_log2 whole]
  calc 2 ^ ((dividend / divisor).log2 + divisor.log2)
      = 2 ^ (dividend / divisor).log2 * 2 ^ divisor.log2 := Nat.pow_add ..
    _ ≤ dividend / divisor * divisor :=
        Nat.mul_le_mul (Nat.log2_self_le some) (Nat.log2_self_le positive)
    _ ≤ dividend := Nat.div_mul_le_self ..

theorem round_at_least (sign : UnpackedFloat.Sign) {number : Nat} (some : number ≠ 0) :
    IsAtLeast number.log2 (pack (UnpackedFloat.round Format.binary64 sign number 0)).unpack := by
  have target : Format.binary64.targetExponent (totalExponent number 0) =
      max ((number.log2 : Int) + 1 + 0 - 53) (-1074) := rfl
  unfold UnpackedFloat.round UnpackedFloat.decreaseExponent
  dsimp only
  have log := log2_shift_left some
    (0 - Format.binary64.targetExponent (totalExponent number 0)).toNat
  exact rounding_at_least _ _ _ (by omega) (by omega) (by omega)

theorem product_by_one_at_least {total : Int} {value : UnpackedFloat}
    (factor : IsAtLeast total value) (lower : -1022 ≤ total) :
    IsAtLeast total (pack (UnpackedFloat.mul Format.binary64 value
      (.finite .positive (2 ^ 52) (-52) (Nat.two_pow_pos 52)))).unpack := by
  cases factor with
  | infinity sign => cases sign <;> exact .infinity _
  | normal sign mantissa exponent positive log large =>
    have longer : (mantissa * 2 ^ 52).log2 = 104 := by
      rw [← Nat.shiftLeft_eq, log2_shift_left (Nat.ne_of_gt positive), log]
    exact rounding_at_least _ (mantissa * 2 ^ 52) (exponent + -52) (by omega) lower (by omega)

section Conversion

variable {number : Nat} (some : number ≠ 0)

include some

/-- The conversion goes through a machine word, and multiplies by the zeroth power of ten. -/
theorem of_word_eq (fits : number < 2 ^ 53) :
    (Float.ofNat number).toModel = pack (UnpackedFloat.mul Format.binary64
      (pack (UnpackedFloat.round Format.binary64 .positive number 0)).unpack
      (.finite .positive (2 ^ 52) (-52) (Nat.two_pow_pos 52))) := by
  have word : number.toUInt64.toNat = number := Nat.mod_eq_of_lt (by omega)
  have converted : ofUInt64 number.toUInt64 =
      pack (UnpackedFloat.round Format.binary64 .positive number 0) := by
    have order : compare (number : Int) 0 = .gt := Int.compare_eq_gt.mpr (by omega)
    simp only [ofUInt64, UnpackedFloat.ofUInt64, UnpackedFloat.ofNat, UnpackedFloat.ofInt,
      UnpackedFloat.normalize, word, order, Int.toNat_natCast]
  have scaled : Float.ofNat number =
      number.toUInt64.toFloat * Float.exactlyRepresentablePowersOfTen[0] :=
    dif_pos ⟨fits, by decide⟩
  rw [scaled, ← converted]
  rfl

theorem of_word_at_least (fits : number < 2 ^ 53) :
    IsAtLeast number.log2 (Float.ofNat number).toModel.unpack := by
  rw [of_word_eq some fits]
  exact product_by_one_at_least (round_at_least .positive some) (by omega)

/-- Longer numbers are rounded from a mantissa that is shifted by the length of one. -/
theorem of_long_at_least (long : ¬number < 2 ^ 53) :
    IsAtLeast number.log2 (Float.ofNat number).toModel.unpack := by
  have early : ¬(0 : Int) < -(2 ^ Format.binary64.exponentBits + number.log2) := by
    change ¬(0 : Int) < -(2 ^ 11 + number.log2)
    omega
  have product : UnpackedFloat.ofScientific Format.binary64 number 0 =
      UnpackedFloat.roundWithAccuracy Format.binary64 (.positive * .positive)
        (number <<< 53 * 10 ^ 0) (-53 + 0) .exact := by
    unfold UnpackedFloat.ofScientific
    rw [dif_neg some, if_neg (by decide), if_neg early, if_pos (Int.le_refl 0)]
    unfold UnpackedFloat.mul
    dsimp only
    rfl
  have scaled : (Float.ofNat number).toModel =
      pack (UnpackedFloat.ofScientific Format.binary64 number 0) := by
    unfold Float.ofNat
    exact congrArg Float.toModel (dif_neg fun small => long small.1)
  have longer : (number <<< 53 * 10 ^ 0).log2 = number.log2 + 53 := by
    rw [Nat.pow_zero, Nat.mul_one, log2_shift_left some]
  rw [scaled, product]
  exact rounding_at_least _ (number <<< 53 * 10 ^ 0) (-53 + 0) (by omega) (by omega) (by omega)

theorem of_nat_at_least : IsAtLeast number.log2 (Float.ofNat number).toModel.unpack := by
  by_cases fits : number < 2 ^ 53
  · exact of_word_at_least some fits
  · exact of_long_at_least some fits

end Conversion

/-- Rounding up cannot carry a quotient to infinity if the divisor takes enough from the
exponent. -/
theorem quotient_room {dividend divisor : Nat} {upper lower : Int} (some : dividend ≠ 0)
    (positive : divisor ≠ 0)
    (apart : dividend.log2 + upper - (divisor.log2 + lower) ≤ 1022) :
    let quotient := UnpackedFloat.divCore Format.binary64 dividend upper divisor lower
    lastPlace quotient.1 quotient.2.1 ≤ 970 := by
  have target : Format.binary64.targetExponent
      (totalExponent dividend upper - totalExponent divisor lower) =
        max ((dividend.log2 : Int) + 1 + upper - (divisor.log2 + 1 + lower) - 53) (-1074) := rfl
  unfold UnpackedFloat.divCore
  dsimp only
  generalize place : min (upper - lower) (Format.binary64.targetExponent _) = exponent
  generalize amount : (upper - lower - exponent).toNat = shift
  have log := log2_shift_left some shift
  unfold lastPlace
  by_cases none : dividend <<< shift / divisor = 0
  · rw [none, Nat.log2_zero]
    omega
  · have bound := log2_quotient none positive
    omega

section Quotients

variable {total : Int} {value : UnpackedFloat} (divisor : IsAtLeast total value)

include divisor

theorem infinite_quotient (sign : UnpackedFloat.Sign) :
    (pack (UnpackedFloat.div Format.binary64 (.infinity sign) value)).isFinite = false := by
  cases divisor with
  | infinity other => exact not_a_number_not_finite
  | normal other mantissa exponent positive => exact infinity_not_finite _

theorem zero_quotient (sign : UnpackedFloat.Sign) :
    (pack (UnpackedFloat.div Format.binary64 (.zero sign) value)).isFinite = true := by
  cases divisor with
  | infinity other => exact zero_finite _
  | normal other mantissa exponent positive => exact zero_finite _

theorem finite_quotient {sign : UnpackedFloat.Sign} {mantissa : Nat} {exponent : Int}
    {positive : 0 < mantissa} (apart : mantissa.log2 + exponent - total ≤ 1022) :
    (pack (UnpackedFloat.div Format.binary64 (.finite sign mantissa exponent positive)
      value)).isFinite = true := by
  cases divisor with
  | infinity other => exact zero_finite _
  | normal other lower place above log large =>
    have room := quotient_room (Nat.ne_of_gt positive) (Nat.ne_of_gt above)
      (show mantissa.log2 + exponent - (lower.log2 + place) ≤ 1022 by omega)
    obtain ⟨_, _, _, settled⟩ := rounding_settles
      (UnpackedFloat.divCore Format.binary64 mantissa exponent lower place).1
      (UnpackedFloat.divCore Format.binary64 mantissa exponent lower place).2.1
      (UnpackedFloat.divCore Format.binary64 mantissa exponent lower place).2.2 (sign / other)
    exact settled.pack_finite (.inl room)

end Quotients

section ByOne

variable {mantissa : Nat} (log : mantissa.log2 = 52)

include log

theorem div_core_by_one : UnpackedFloat.divCore Format.binary64 mantissa 971 (2 ^ 52) (-52) =
    (2 * mantissa, 970, .exact) := by
  have target : Format.binary64.targetExponent
      (totalExponent mantissa 971 - totalExponent (2 ^ 52) (-52)) = 970 := by
    unfold totalExponent
    rw [log, Nat.log2_two_pow]
    rfl
  have shifted : mantissa <<< 53 = 2 ^ 52 * (2 * mantissa) := by
    rw [Nat.shiftLeft_eq]
    omega
  unfold UnpackedFloat.divCore
  dsimp only
  rw [target]
  change ((mantissa <<< 53) / 2 ^ 52, (970 : Int),
    UnpackedFloat.accuracyOfFraction ((mantissa <<< 53) % 2 ^ 52) (2 ^ 52)) = _
  rw [shifted, Nat.mul_div_cancel_left _ (Nat.two_pow_pos 52), Nat.mul_mod_right]
  rfl

theorem twice_rounded (positive : 0 < mantissa) :
    (UnpackedFloat.shiftToTargetExponent Format.binary64 (2 * mantissa) 970
      .exact).1.roundedMantissa = mantissa := by
  have target : Format.binary64.targetExponent (totalExponent (2 * mantissa) 970) = 971 := by
    unfold totalExponent
    rw [Nat.log2_two_mul (Nat.ne_of_gt positive), log]
    rfl
  unfold UnpackedFloat.shiftToTargetExponent
  rw [target]
  change UnpackedFloat.ExtendedMantissa.roundedMantissa
    ⟨2 * mantissa / 2, 2 * mantissa % 2 != 0, false⟩ = _
  rw [Nat.mul_div_cancel_left _ (by decide), Nat.mul_mod_right]
  rfl

/-- A quotient by one is exact, so that the largest doubles are not rounded up. -/
theorem quotient_by_one (sign : UnpackedFloat.Sign) (positive : 0 < mantissa) :
    (pack (UnpackedFloat.div Format.binary64 (.finite sign mantissa 971 positive)
      (.finite .positive (2 ^ 52) (-52) (Nat.two_pow_pos 52)))).isFinite = true := by
  have quotient : UnpackedFloat.div Format.binary64 (.finite sign mantissa 971 positive)
      (.finite .positive (2 ^ 52) (-52) (Nat.two_pow_pos 52)) =
        UnpackedFloat.roundWithAccuracy Format.binary64 (sign / .positive) (2 * mantissa) 970
          .exact := by
    unfold UnpackedFloat.div
    dsimp only
    rw [div_core_by_one log]
  have place : lastPlace (2 * mantissa) 970 = 971 := by
    rw [lastPlace, Nat.log2_two_mul (Nat.ne_of_gt positive), log]
    rfl
  have fits : mantissa < 2 ^ 53 := (Nat.log2_lt (Nat.ne_of_gt positive)).mp (by omega)
  obtain ⟨rounded, _, same, settled⟩ :=
    rounding_settles (2 * mantissa) 970 .exact (sign / .positive)
  rw [same, twice_rounded log positive, place] at settled
  rw [quotient]
  exact settled.pack_finite (.inr ⟨Int.le_refl 971, fits⟩)

end ByOne

theorem float_div_zero_not_finite (dividend : Float) :
    (dividend / (Scalar.ofInt 0 : Float)).isFinite = false := by
  have zero : (Float.ofInt 0).toModel.unpack = .zero .positive := rfl
  change (pack (UnpackedFloat.div Format.binary64 dividend.toModel.unpack
    (Float.ofInt 0).toModel.unpack)).isFinite = false
  rw [zero]
  cases dividend.toModel.unpack with
  | notANumber => decide +kernel
  | infinity sign => exact infinity_not_finite _
  | zero sign => cases sign <;> decide +kernel
  | finite sign mantissa exponent positive => exact infinity_not_finite _

/-- Division by a positive number neither overflows nor makes anything finite. -/
theorem float_div_of_int_finite (dividend : Float) {count : Int} (positive : 0 < count) :
    (dividend / (Scalar.ofInt count : Float)).isFinite = dividend.isFinite := by
  obtain ⟨number, rfl⟩ := Int.eq_ofNat_of_zero_le (Int.le_of_lt positive)
  have some : number ≠ 0 := by omega
  change (pack (UnpackedFloat.div Format.binary64 dividend.toModel.unpack
    (Float.ofNat number).toModel.unpack)).isFinite = dividend.toModel.unpack.isFinite
  have divisor := of_nat_at_least some
  have stored := unpack_stores dividend.toModel.toBits.toBitVec
  change Stores _ dividend.toModel.unpack at stored
  generalize dividend.toModel.unpack = value at stored
  cases value with
  | notANumber => exact not_a_number_not_finite
  | infinity sign => exact infinite_quotient divisor sign
  | zero sign => exact zero_quotient divisor sign
  | finite sign mantissa exponent above =>
    obtain ⟨small, _, upper⟩ := stored.bounds
    have log : mantissa.log2 < 53 := (Nat.log2_lt (Nat.ne_of_gt above)).mpr small
    -- one takes nothing from the exponent, so that the largest doubles are a case of their own
    by_cases top : number = 1 ∧ mantissa.log2 + exponent = 1023
    · obtain ⟨rfl, large⟩ := top
      obtain rfl : exponent = 971 := by omega
      exact quotient_by_one (by omega) sign above
    · have apart : mantissa.log2 + exponent - number.log2 ≤ 1022 := by
        by_cases one : number = 1
        · omega
        · have two : 1 ≤ number.log2 := (Nat.le_log2 some).mpr (by omega)
          omega
      exact finite_quotient divisor apart

end Comoment
