import Comoment.Scalar
import Mathlib.Algebra.Order.Ring.Int

/-!
How doubles are rounded and packed. Rounding cuts a mantissa off at its last place and may carry
into the next one. Packing keeps what it gives, unless the exponent is past that of the largest
double.
-/

namespace Comoment

open Float.Model

/-- The exponent of the last place of a double to which a number is rounded. -/
def lastPlace (mantissa : Nat) (exponent : Int) : Int :=
  max exponent (max (mantissa.log2 + exponent - 52) (-1074))

def truncated (mantissa : Nat) (exponent : Int) : Nat :=
  mantissa / 2 ^ (lastPlace mantissa exponent - exponent).toNat

/-- What becomes of a rounded mantissa with its last place: zero, itself if it fits, or a power of
two that is carried to the next place. -/
inductive Settles (place : Int) : Nat → UnpackedFloat → Prop
  | zero (sign : UnpackedFloat.Sign) : Settles place 0 (.zero sign)
  | kept (sign : UnpackedFloat.Sign) (rounded : Nat) (positive : 0 < rounded) :
      rounded < 2 ^ 53 → Settles place rounded (.finite sign rounded place positive)
  | carried (sign : UnpackedFloat.Sign) :
      Settles place (2 ^ 53) (.finite sign (2 ^ 52) (place + 1) (Nat.two_pow_pos 52))

theorem shifted_mantissa (extended : UnpackedFloat.ExtendedMantissa) (amount : Nat) :
    (extended >>> amount).mantissa = extended.mantissa / 2 ^ amount := by
  induction amount with
  | zero => exact (Nat.div_one _).symm
  | succ amount ih =>
    change (extended >>> amount).mantissa / 2 = _
    rw [ih, Nat.div_div_eq_div_mul, Nat.pow_succ]

theorem rounded_mantissa_bounds (extended : UnpackedFloat.ExtendedMantissa) :
    extended.mantissa ≤ extended.roundedMantissa ∧
      extended.roundedMantissa ≤ extended.mantissa + 1 := by
  obtain ⟨mantissa, half, rest⟩ := extended
  cases half <;> cases rest <;>
    simp only [UnpackedFloat.ExtendedMantissa.roundedMantissa,
      UnpackedFloat.ExtendedMantissa.accuracy,
      UnpackedFloat.Accuracy.roundToNearestEven] <;> omega

section Rounding

variable (mantissa : Nat) (exponent : Int) (accuracy : UnpackedFloat.Accuracy)

theorem target_eq_last_place :
    exponent + (Format.binary64.targetExponent (totalExponent mantissa exponent) - exponent).toNat =
      lastPlace mantissa exponent := by
  have target : Format.binary64.targetExponent (totalExponent mantissa exponent) =
      max (mantissa.log2 + 1 + exponent - 53) (-1074) := rfl
  rw [target, lastPlace]
  omega

theorem first_shift :
    let shifted :=
      UnpackedFloat.shiftToTargetExponent Format.binary64 mantissa exponent accuracy
    shifted.1.mantissa = truncated mantissa exponent ∧
      shifted.2 = lastPlace mantissa exponent := by
  have place := target_eq_last_place mantissa exponent
  refine ⟨?_, place⟩
  have amount : (Format.binary64.targetExponent (totalExponent mantissa exponent) -
      exponent).toNat = (lastPlace mantissa exponent - exponent).toNat := by omega
  have kept : (UnpackedFloat.ExtendedMantissa.ofMantissaAndAccuracy mantissa accuracy).mantissa =
      mantissa := by
    cases accuracy with
    | exact => rfl
    | inexact order => cases order <;> rfl
  unfold UnpackedFloat.shiftToTargetExponent UnpackedFloat.shiftToExponent
  dsimp only
  rw [shifted_mantissa, kept, amount, truncated]

theorem truncated_lt : truncated mantissa exponent < 2 ^ 53 := by
  have enough : mantissa.log2 + 1 ≤ 53 + (lastPlace mantissa exponent - exponent).toNat := by
    unfold lastPlace
    omega
  have bound := Nat.lt_log2_self (n := mantissa)
  rw [truncated, Nat.div_lt_iff_lt_mul (Nat.two_pow_pos _), ← Nat.pow_add]
  exact Nat.lt_of_lt_of_le bound (Nat.pow_le_pow_right (by decide) enough)

theorem last_place_of_fits (fits : mantissa < 2 ^ 53) (lower : -1074 ≤ exponent) :
    lastPlace mantissa exponent = exponent := by
  have log : mantissa.log2 ≤ 52 := by
    by_cases zero : mantissa = 0
    · simp [zero]
    · exact Nat.le_of_lt_succ ((Nat.log2_lt zero).mpr fits)
  unfold lastPlace
  omega

theorem rounding_settles (sign : UnpackedFloat.Sign) :
    ∃ rounded, truncated mantissa exponent ≤ rounded ∧
      rounded = (UnpackedFloat.shiftToTargetExponent Format.binary64 mantissa exponent
        accuracy).1.roundedMantissa ∧
      Settles (lastPlace mantissa exponent) rounded
        (UnpackedFloat.roundWithAccuracy Format.binary64 sign mantissa exponent accuracy) := by
  obtain ⟨first, place⟩ := first_shift mantissa exponent accuracy
  have bounds := rounded_mantissa_bounds
    (UnpackedFloat.shiftToTargetExponent Format.binary64 mantissa exponent accuracy).1
  have small := truncated_lt mantissa exponent
  have lower : -1074 ≤ lastPlace mantissa exponent := by
    unfold lastPlace
    omega
  rw [first] at bounds
  refine ⟨_, bounds.1, rfl, ?_⟩
  unfold UnpackedFloat.roundWithAccuracy
  dsimp only
  rw [place]
  generalize (UnpackedFloat.shiftToTargetExponent Format.binary64 mantissa exponent
    accuracy).1.roundedMantissa = rounded at bounds
  obtain ⟨second, again⟩ := first_shift rounded (lastPlace mantissa exponent) .exact
  generalize UnpackedFloat.shiftToTargetExponent Format.binary64 rounded
    (lastPlace mantissa exponent) .exact = shifted at second again ⊢
  obtain ⟨⟨final, _, _⟩, last⟩ := shifted
  obtain fits | rfl := Nat.lt_or_eq_of_le (Nat.le_trans bounds.2 small)
  · have same := last_place_of_fits rounded _ fits lower
    have whole : truncated rounded (lastPlace mantissa exponent) = rounded := by
      rw [truncated, same, Int.sub_self]
      exact Nat.div_one rounded
    obtain rfl : final = rounded := second.trans whole
    obtain rfl : last = lastPlace mantissa exponent := again.trans same
    dsimp only
    by_cases none : final = 0
    · rw [dif_pos none, none]
      exact .zero sign
    · rw [dif_neg none]
      exact .kept sign final _ fits
  · have next : lastPlace (2 ^ 53) (lastPlace mantissa exponent) =
        lastPlace mantissa exponent + 1 := by
      rw [lastPlace, Nat.log2_two_pow]
      omega
    have half : truncated (2 ^ 53) (lastPlace mantissa exponent) = 2 ^ 52 := by
      rw [truncated, next, show ∀ place : Int, place + 1 - place = 1 by omega]
      rfl
    obtain rfl : final = 2 ^ 52 := second.trans half
    obtain rfl : last = lastPlace mantissa exponent + 1 := again.trans next
    exact .carried sign

end Rounding

/-- What a double is for its biased exponent. -/
inductive Stores (biased : Nat) : UnpackedFloat → Prop
  | notANumber : biased = 2047 → Stores biased .notANumber
  | infinity (sign : UnpackedFloat.Sign) : biased = 2047 → Stores biased (.infinity sign)
  | zero (sign : UnpackedFloat.Sign) : biased = 0 → Stores biased (.zero sign)
  | subnormal (sign : UnpackedFloat.Sign) (mantissa : Nat) (positive : 0 < mantissa) :
      biased = 0 → mantissa < 2 ^ 52 → Stores biased (.finite sign mantissa (-1074) positive)
  | normal (sign : UnpackedFloat.Sign) (mantissa : Nat) (positive : 0 < mantissa) :
      0 < biased → biased < 2047 → 2 ^ 52 ≤ mantissa → mantissa < 2 ^ 53 →
        Stores biased (.finite sign mantissa (biased - 1075) positive)

theorem unpack_stores (bits : BitVec Format.binary64.numBits) :
    Stores (UnpackedFloat.unpackExponent bits).toNat
      (UnpackedFloat.unpack Format.binary64 bits) := by
  have bound := (UnpackedFloat.unpackExponent bits).isLt
  have fraction := (UnpackedFloat.unpackMantissa bits).isLt
  unfold UnpackedFloat.unpack
  dsimp only
  by_cases ones : UnpackedFloat.unpackExponent bits = -1#11
  · rw [if_pos ones, ones]
    by_cases none : UnpackedFloat.unpackMantissa bits = 0#52
    · rw [if_pos none]
      exact .infinity _ rfl
    · rw [if_neg none]
      exact .notANumber rfl
  · rw [if_neg ones]
    by_cases least : UnpackedFloat.unpackExponent bits = 0#11
    · rw [if_pos least, least]
      by_cases none : UnpackedFloat.unpackMantissa bits = 0#52
      · rw [dif_pos none]
        exact .zero _ rfl
      · rw [dif_neg none]
        exact .subnormal _ _ _ rfl fraction
    · rw [if_neg least]
      have value : (1#1 ++ UnpackedFloat.unpackMantissa bits).toNat =
          2 ^ 52 + (UnpackedFloat.unpackMantissa bits).toNat := by
        rw [BitVec.toNat_append, ← Nat.shiftLeft_add_eq_or_of_lt fraction]
        rfl
      have below : (UnpackedFloat.unpackExponent bits).toNat ≠ 2047 :=
        fun reached => ones (BitVec.eq_of_toNat_eq reached)
      change _ < 2 ^ 11 at bound
      change _ < 2 ^ 52 at fraction
      refine .normal _ _ _ ?_ (by omega) (by omega) (by omega)
      exact Nat.pos_of_ne_zero fun zero => least (BitVec.eq_of_toNat_eq zero)

namespace Stores

variable {biased : Nat} {value : UnpackedFloat}

theorem is_finite (stored : Stores biased value) (below : biased < 2047) :
    value.isFinite = true := by
  cases stored with
  | notANumber ones => omega
  | infinity sign ones => omega
  | zero => rfl
  | subnormal => rfl
  | normal => rfl

theorem is_normal (stored : Stores biased value) (some : 0 < biased) (below : biased < 2047) :
    ∃ sign mantissa positive,
      value = .finite sign mantissa (biased - 1075) positive ∧ mantissa.log2 = 52 := by
  cases stored with
  | notANumber ones => omega
  | infinity sign ones => omega
  | zero sign none => omega
  | subnormal sign mantissa positive none => omega
  | normal sign mantissa positive _ _ lower upper =>
    exact ⟨sign, mantissa, positive, rfl, (Nat.log2_eq_iff (by omega)).mpr ⟨lower, upper⟩⟩

theorem bounds {sign : UnpackedFloat.Sign} {mantissa : Nat} {exponent : Int}
    {positive : 0 < mantissa} (stored : Stores biased (.finite sign mantissa exponent positive)) :
    mantissa < 2 ^ 53 ∧ -1074 ≤ exponent ∧ exponent ≤ 971 := by
  cases stored with
  | subnormal _ _ _ _ small => exact ⟨by omega, by omega, by omega⟩
  | normal _ _ _ some fits _ small => exact ⟨small, by omega, by omega⟩

end Stores

section Packing

variable (sign : UnpackedFloat.Sign) (mantissa : Nat) (exponent : Int) (positive : 0 < mantissa)
  (upper : exponent ≤ 971)

include upper

/-- A number below infinity is packed by its fields; without a leading one the exponent is zero. -/
theorem pack_eq : UnpackedFloat.pack Format.binary64 (.finite sign mantissa exponent positive) =
    UnpackedFloat.packComponents Format.binary64 sign
      (if mantissa.log2 = 52 then BitVec.ofNat 11 (exponent + 1075).toNat else 0#11)
      (BitVec.ofNat 52 mantissa) := by
  have bias : exponent + Format.binary64.exponentBias + (52 : Nat) = exponent + 1075 := by
    change exponent + 1023 + 52 = _
    omega
  have fits : ¬2 ^ 11 ≤ (exponent + 1075).toNat + 1 := by omega
  have bits : mantissa.log2 + 1 = Format.binary64.mantissaBits ↔ mantissa.log2 = 52 :=
    Nat.succ_inj
  unfold UnpackedFloat.pack
  dsimp only
  rw [bias, if_neg fits]
  simp only [bits]
  split <;> rfl

theorem exponent_field : (BitVec.ofNat 11 (exponent + 1075).toNat).toNat =
    (exponent + 1075).toNat := by
  rw [BitVec.toNat_ofNat]
  omega

theorem pack_stores : Stores (if mantissa.log2 = 52 then (exponent + 1075).toNat else 0)
    (pack (.finite sign mantissa exponent positive)).unpack := by
  have packed := pack_eq sign mantissa exponent positive upper
  have field : (if mantissa.log2 = 52 then BitVec.ofNat 11 (exponent + 1075).toNat
      else 0#11).toNat = if mantissa.log2 = 52 then (exponent + 1075).toNat else 0 := by
    split
    · exact exponent_field exponent upper
    · rfl
  have stored := unpack_stores (UnpackedFloat.pack Format.binary64
    (.finite sign mantissa exponent positive))
  rw [← field]
  rw [packed, UnpackedFloat.unpackExponent_packComponents, ← packed] at stored
  exact stored

end Packing

theorem zero_finite (sign : UnpackedFloat.Sign) : (pack (.zero sign)).isFinite = true := by
  cases sign <;> decide +kernel

theorem not_a_number_not_finite : (pack .notANumber).isFinite = false := by decide +kernel

theorem infinity_not_finite (sign : UnpackedFloat.Sign) :
    (pack (.infinity sign)).isFinite = false := by
  cases sign <;> decide +kernel

theorem pack_finite (sign : UnpackedFloat.Sign) (mantissa : Nat) (exponent : Int)
    (positive : 0 < mantissa) (upper : exponent ≤ 971) :
    (pack (.finite sign mantissa exponent positive)).isFinite = true := by
  refine (pack_stores sign mantissa exponent positive upper).is_finite ?_
  split <;> omega

/-- Infinite, or normal with a leading bit that counts for two to the power `total` or more. -/
inductive IsAtLeast (total : Int) : UnpackedFloat → Prop
  | infinity (sign : UnpackedFloat.Sign) : IsAtLeast total (.infinity sign)
  | normal (sign : UnpackedFloat.Sign) (mantissa : Nat) (exponent : Int)
      (positive : 0 < mantissa) : mantissa.log2 = 52 → total ≤ 52 + exponent →
        IsAtLeast total (.finite sign mantissa exponent positive)

theorem pack_at_least {total : Int} (sign : UnpackedFloat.Sign) (mantissa : Nat) (exponent : Int)
    (positive : 0 < mantissa) (normal : mantissa.log2 = 52) (lower : -1074 ≤ exponent)
    (large : total ≤ 52 + exponent) :
    IsAtLeast total (pack (.finite sign mantissa exponent positive)).unpack := by
  by_cases upper : exponent ≤ 971
  · have stored := pack_stores sign mantissa exponent positive upper
    rw [if_pos normal] at stored
    obtain ⟨_, kept, some, same, log⟩ := stored.is_normal (by omega) (by omega)
    rw [same]
    exact .normal _ _ _ _ log (by omega)
  · have packed : UnpackedFloat.pack Format.binary64 (.finite sign mantissa exponent positive) =
        UnpackedFloat.packedInfinity Format.binary64 sign := by
      have past : 2 ^ 11 ≤ (exponent + 1023 + 52).toNat + 1 := by omega
      unfold UnpackedFloat.pack
      exact if_pos past
    change IsAtLeast _
      (UnpackedFloat.unpack Format.binary64 (UnpackedFloat.pack Format.binary64 _))
    rw [packed]
    cases sign <;> exact .infinity _

namespace Settles

variable {place : Int} {rounded : Nat} {value : UnpackedFloat}

theorem pack_finite (settled : Settles place rounded value)
    (room : place ≤ 970 ∨ place ≤ 971 ∧ rounded < 2 ^ 53) : (pack value).isFinite = true := by
  cases settled with
  | zero sign => exact zero_finite sign
  | kept sign rounded positive => exact Comoment.pack_finite _ _ _ _ (by omega)
  | carried sign => exact Comoment.pack_finite _ _ _ _ (by omega)

theorem pack_at_least {total : Int} (settled : Settles place rounded value)
    (normal : 2 ^ 52 ≤ rounded) (lower : -1074 ≤ place) (large : total ≤ 52 + place) :
    IsAtLeast total (pack value).unpack := by
  cases settled with
  | zero sign => omega
  | kept sign rounded positive upper =>
    have log : rounded.log2 = 52 := (Nat.log2_eq_iff (by omega)).mpr ⟨normal, upper⟩
    exact Comoment.pack_at_least _ _ _ _ log lower large
  | carried sign =>
    exact Comoment.pack_at_least _ _ _ _ Nat.log2_two_pow (by omega) (by omega)

end Settles

theorem rounding_at_least {total : Int} (sign : UnpackedFloat.Sign) (mantissa : Nat)
    (exponent : Int) (long : 52 ≤ mantissa.log2) (lower : -1022 ≤ total)
    (large : total ≤ mantissa.log2 + exponent) :
    IsAtLeast total (pack (UnpackedFloat.roundWithAccuracy Format.binary64 sign mantissa exponent
      .exact)).unpack := by
  have place : lastPlace mantissa exponent = mantissa.log2 + exponent - 52 := by
    unfold lastPlace
    omega
  have leading : 2 ^ 52 ≤ truncated mantissa exponent := by
    have amount : 52 + (lastPlace mantissa exponent - exponent).toNat = mantissa.log2 := by omega
    have some : mantissa ≠ 0 := by
      rintro rfl
      exact absurd long (by decide)
    rw [truncated, Nat.le_div_iff_mul_le (Nat.two_pow_pos _), ← Nat.pow_add, amount]
    exact Nat.log2_self_le some
  obtain ⟨rounded, above, _, settled⟩ := rounding_settles mantissa exponent .exact sign
  exact settled.pack_at_least (Nat.le_trans leading above) (by omega) (by omega)

end Comoment
