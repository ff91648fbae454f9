import Comoment.Proofs.FiniteQuotients
import Comoment.Proofs.Rational

/-!
Integers that a double holds exactly. Shifting a mantissa right loses nothing if its last places are
zero, and packing keeps what fits, so that every integer below the precision of a double is
converted to itself.
-/

namespace Comoment

open Float.Model

/-- No place that is shifted out of a mantissa is one. -/
theorem exact_shift (mantissa amount : Nat) :
    (⟨mantissa * 2 ^ amount, false, false⟩ : UnpackedFloat.ExtendedMantissa) >>> amount =
      ⟨mantissa, false, false⟩ := by
  induction amount generalizing mantissa with
  | zero =>
    rw [Nat.pow_zero, Nat.mul_one]
    rfl
  | succ amount ih =>
    have doubled : mantissa * 2 ^ (amount + 1) = 2 * mantissa * 2 ^ amount := by
      rw [Nat.pow_succ, Nat.mul_comm _ 2, ← Nat.mul_assoc, Nat.mul_comm mantissa]
    rw [doubled]
    change ((⟨2 * mantissa * 2 ^ amount, false, false⟩ : UnpackedFloat.ExtendedMantissa) >>>
      amount).shiftRightOne = _
    rw [ih]
    change (⟨2 * mantissa / 2, 2 * mantissa % 2 != 0, false⟩ :
      UnpackedFloat.ExtendedMantissa) = _
    rw [Nat.mul_div_cancel_left _ (by decide), Nat.mul_mod_right]
    rfl

theorem unpack_sign (sign : UnpackedFloat.Sign) (exponent : BitVec 11) (mantissa : BitVec 52) :
    UnpackedFloat.Sign.ofBitVec (UnpackedFloat.unpackSign
      (UnpackedFloat.packComponents Format.binary64 sign exponent mantissa)) = sign := by
  unfold UnpackedFloat.unpackSign UnpackedFloat.packComponents BitVec.extractLsb
  rw [BitVec.extractLsb'_append_eq_of_le (Nat.le_add_right _ _),
    BitVec.extractLsb'_append_eq_of_le (Nat.le_of_eq (Nat.add_sub_cancel_left ..).symm)]
  cases sign <;> rfl

theorem unpack_components (sign : UnpackedFloat.Sign) {exponent : BitVec 11} (mantissa : BitVec 52)
    (below : exponent ≠ -1#11) (some : exponent ≠ 0#11) :
    ∃ positive, UnpackedFloat.unpack Format.binary64
        (UnpackedFloat.packComponents Format.binary64 sign exponent mantissa) =
      .finite sign (1#1 ++ mantissa).toNat (exponent.toNat - 1075) positive := by
  have first := unpack_sign sign exponent mantissa
  have middle : UnpackedFloat.unpackExponent
      (UnpackedFloat.packComponents Format.binary64 sign exponent mantissa) = exponent :=
    UnpackedFloat.unpackExponent_packComponents
  have last : UnpackedFloat.unpackMantissa
      (UnpackedFloat.packComponents Format.binary64 sign exponent mantissa) = mantissa :=
    UnpackedFloat.unpackMantissa_packComponents
  generalize UnpackedFloat.packComponents Format.binary64 sign exponent mantissa = bits at *
  subst first middle last
  exact ⟨_, (if_neg below).trans (if_neg some)⟩

section Normal

variable {mantissa : Nat} (log : mantissa.log2 = 52) (exponent : Int)

include log

theorem exact_target (amount : Nat) (lower : -1074 ≤ exponent + amount) :
    UnpackedFloat.shiftToTargetExponent Format.binary64 (mantissa * 2 ^ amount) exponent .exact =
      (⟨mantissa, false, false⟩, exponent + amount) := by
  have some : mantissa ≠ 0 := by
    rintro rfl
    simp at log
  have length : (mantissa * 2 ^ amount).log2 = 52 + amount := by
    rw [← Nat.shiftLeft_eq, log2_shift_left some, log]
  have shift : (Format.binary64.targetExponent
      (totalExponent (mantissa * 2 ^ amount) exponent) - exponent).toNat = amount := by
    have target := target_eq_last_place (mantissa * 2 ^ amount) exponent
    rw [lastPlace, length] at target
    omega
  unfold UnpackedFloat.shiftToTargetExponent UnpackedFloat.shiftToExponent
  dsimp only
  rw [shift]
  exact congrArg (·, exponent + amount) (exact_shift mantissa amount)

theorem round_exact (sign : UnpackedFloat.Sign) (positive : 0 < mantissa) (amount : Nat)
    (lower : -1074 ≤ exponent + amount) :
    UnpackedFloat.roundWithAccuracy Format.binary64 sign (mantissa * 2 ^ amount) exponent .exact =
      .finite sign mantissa (exponent + amount) positive := by
  have again := exact_target log (exponent + amount) 0 (by omega)
  rw [Nat.pow_zero, Nat.mul_one, Int.natCast_zero, Int.add_zero] at again
  have whole : UnpackedFloat.ExtendedMantissa.roundedMantissa ⟨mantissa, false, false⟩ =
      mantissa := rfl
  unfold UnpackedFloat.roundWithAccuracy
  rw [exact_target log exponent amount lower]
  dsimp only
  rw [whole]
  generalize UnpackedFloat.shiftToTargetExponent _ mantissa _ _ = shifted at again
  subst again
  exact dif_neg (Nat.ne_of_gt positive)

theorem unpack_pack (sign : UnpackedFloat.Sign) (positive : 0 < mantissa) (lower : -1074 ≤ exponent)
    (upper : exponent ≤ 971) :
    (pack (.finite sign mantissa exponent positive)).unpack =
      .finite sign mantissa exponent positive := by
  have fits : mantissa < 2 ^ 53 := (Nat.log2_lt (Nat.ne_of_gt positive)).mp (by omega)
  have leading : 2 ^ 52 ≤ mantissa := (Nat.le_log2 (Nat.ne_of_gt positive)).mp (by omega)
  have packed := pack_eq sign mantissa exponent positive upper
  have field := exponent_field exponent upper
  rw [if_pos log] at packed
  have some : BitVec.ofNat 11 (exponent + 1075).toNat ≠ 0#11 := by
    intro none
    rw [none, BitVec.toNat_ofNat] at field
    omega
  have below : BitVec.ofNat 11 (exponent + 1075).toNat ≠ -1#11 := by
    intro ones
    rw [ones] at field
    change 2047 = _ at field
    omega
  have restored : (1#1 ++ BitVec.ofNat 52 mantissa).toNat = mantissa := by
    rw [BitVec.toNat_append, ← Nat.shiftLeft_add_eq_or_of_lt (BitVec.isLt _), BitVec.toNat_ofNat]
    change 1 <<< 52 + mantissa % 2 ^ 52 = mantissa
    omega
  obtain ⟨_, unpacked⟩ := unpack_components sign (BitVec.ofNat 52 mantissa) below some
  change UnpackedFloat.unpack Format.binary64 (UnpackedFloat.pack Format.binary64 _) = _
  rw [packed, unpacked]
  congr 1
  rw [field]
  omega

end Normal

theorem shifted_value (number amount : Nat) :
    ((number * 2 ^ amount : Nat) : ℚ) * 2 ^ (-amount : Int) = number := by
  rw [zpow_neg, zpow_natCast, Nat.cast_mul, Nat.cast_pow, Nat.cast_ofNat, mul_assoc,
    mul_inv_cancel₀ (pow_ne_zero _ two_ne_zero), mul_one]

section Conversion

variable {number : Nat}

/-- A whole number is shifted until its leading one is in front, and is not rounded. -/
theorem round_whole (short : number.log2 ≤ 52) (positive : 0 < number * 2 ^ (52 - number.log2))
    (log : (number * 2 ^ (52 - number.log2)).log2 = 52) :
    UnpackedFloat.round Format.binary64 .positive number 0 =
      .finite .positive (number * 2 ^ (52 - number.log2)) (-(52 - number.log2 : Nat)) positive := by
  have target : Format.binary64.targetExponent (totalExponent number 0) =
      max ((number.log2 : Int) + 1 + 0 - 53) (-1074) := rfl
  have amount : (0 - Format.binary64.targetExponent (totalExponent number 0)).toNat =
      52 - number.log2 := by omega
  have whole := round_exact log (-(52 - number.log2 : Nat)) .positive positive 0 (by omega)
  unfold UnpackedFloat.round UnpackedFloat.decreaseExponent
  dsimp only
  rw [amount, Nat.shiftLeft_eq, Int.zero_sub]
  rwa [Nat.pow_zero, Nat.mul_one, Int.natCast_zero, Int.add_zero] at whole

/-- The product with one after the conversion is as exact as the conversion. -/
theorem of_word_unpack (some : number ≠ 0) (fits : number < 2 ^ 53) :
    ∃ mantissa exponent positive,
      (Float.ofNat number).toModel.unpack = .finite .positive mantissa exponent positive ∧
        mantissa.log2 = 52 ∧ -1074 ≤ exponent ∧ exponent ≤ 971 ∧
        (mantissa : ℚ) * 2 ^ exponent = number := by
  have short : number.log2 < 53 := (Nat.log2_lt some).mpr fits
  have value := shifted_value number (52 - number.log2)
  have positive : 0 < number * 2 ^ (52 - number.log2) :=
    Nat.mul_pos (Nat.pos_of_ne_zero some) (Nat.two_pow_pos _)
  have log : (number * 2 ^ (52 - number.log2)).log2 = 52 := by
    rw [← Nat.shiftLeft_eq, log2_shift_left some]
    omega
  have rounded := round_whole (by omega) positive log
  have product := round_exact log (-(52 - number.log2 : Nat) + -52) .positive positive 52
    (by omega)
  refine ⟨_, -(52 - number.log2 : Nat), positive, ?_, log, by omega, by omega, value⟩
  rw [of_word_eq some fits, rounded, unpack_pack log _ _ _ (by omega) (by omega)]
  change (pack (UnpackedFloat.roundWithAccuracy Format.binary64 .positive _ _ .exact)).unpack = _
  rw [product, unpack_pack log _ _ _ (by omega) (by omega)]
  congr 1
  omega

end Conversion

def HoldsExactly (value : Float) (number : ℚ) : Prop :=
  value.isFinite = true ∧ exactFloat value.toModel.unpack = number

theorem of_int_exact {number : Int} (small : |number| < 2 ^ 53) :
    HoldsExactly (Scalar.ofInt number) number := by
  have fits : number.natAbs < 2 ^ 53 := by
    rw [Int.abs_eq_natAbs] at small
    exact_mod_cast small
  cases number with
  | ofNat number =>
    change (Float.ofNat number).toModel.unpack.isFinite = true ∧
      exactFloat (Float.ofNat number).toModel.unpack = _
    by_cases none : number = 0
    · subst none
      exact ⟨rfl, rfl⟩
    · obtain ⟨mantissa, exponent, positive, unpacked, _, _, _, value⟩ := of_word_unpack none fits
      rw [unpacked]
      exact ⟨rfl, value⟩
  | negSucc number =>
    change (pack (Float.ofNat number.succ).toModel.unpack.neg).unpack.isFinite = true ∧
      exactFloat (pack (Float.ofNat number.succ).toModel.unpack.neg).unpack = _
    obtain ⟨mantissa, exponent, positive, unpacked, log, lower, upper, value⟩ :=
      of_word_unpack number.succ_ne_zero fits
    have negated : (pack (Float.ofNat number.succ).toModel.unpack.neg).unpack =
        .finite .negative mantissa exponent positive := by
      rw [unpacked]
      exact unpack_pack log exponent .negative positive lower upper
    have opposite : ((-(mantissa : Int) : Int) : ℚ) * 2 ^ exponent = Int.negSucc number := by
      rw [Int.cast_neg, Int.cast_natCast, neg_mul, value, Int.cast_negSucc]
    rw [negated]
    exact ⟨rfl, opposite⟩

end Comoment
