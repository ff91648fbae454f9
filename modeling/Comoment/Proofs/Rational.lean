import Comoment.Element
import Mathlib.Algebra.Field.Rat
import Mathlib.Algebra.Order.Field.Rat
import Mathlib.Tactic.FieldSimp
import Mathlib.Tactic.Ring

/-!
The rational numbers as scalars, for the arithmetic that accumulations would do without rounding.
Every finite float stands for the number it denotes, and a decimal for its unscaled value divided
by the power of ten.
-/

namespace Comoment

/-- The number that a float denotes. Infinities and not-a-number denote none and are read as
zero. -/
def exactFloat : Float.Model.UnpackedFloat → ℚ
  | .finite sign mantissa exponent _ => sign.apply mantissa * 2 ^ exponent
  | .zero _ | .infinity _ | .notANumber => 0

instance : Scalar ℚ where
  ofInt value := value
  ofSingle value := exactFloat value.toModel.unpack
  ofDouble value := exactFloat value.toModel.unpack
  tenPower exponent := 10 ^ exponent

theorem Scalar.of_int_rat (value : Int) : (ofInt value : ℚ) = value := rfl

theorem power_times_eq (product base : ℚ) (exponent : Nat) :
    powerTimes product base exponent = product * base ^ (2 * (exponent / 2)) := by
  fun_induction powerTimes product base exponent with
  | case1 product base exponent small =>
    have half : exponent / 2 = 0 := by omega
    simp [half]
  | case2 product base exponent large square half ih =>
    have halves : exponent / 2 = half % 2 + 2 * (half / 2) := by omega
    have low : half % 2 = 0 ∨ half % 2 = 1 := by omega
    have squared : square ^ (2 * (half / 2)) = base ^ (2 * (2 * (half / 2))) := by
      rw [pow_mul base 2, pow_two]
    simp only [dite_eq_ite] at ih
    rw [ih, squared, halves, Nat.mul_add, pow_add]
    rcases low with even | odd
    · simp [even]
    · simp only [odd, if_true]
      change product * (base * base) * _ = _
      ring

/-- Apart from rounding, repeated squaring computes the power. -/
theorem power_by_squaring_eq (base : ℚ) (exponent : Nat) :
    powerBySquaring 1 base exponent = base ^ exponent := by
  fun_induction powerBySquaring 1 base exponent with
  | case1 => simp
  | case2 base exponent positive even ih =>
    have halves : exponent = 2 * (exponent / 2) := by omega
    rw [ih]
    conv_rhs => rw [halves, pow_mul, pow_two]
  | case3 base exponent positive odd =>
    have halves : exponent = 2 * (exponent / 2) + 1 := by omega
    rw [power_times_eq]
    conv_rhs => rw [halves, pow_succ']

/-- Powers of ten are those that doubles take by squaring, for negative exponents from one tenth. -/
theorem Scalar.ten_power_eq (exponent : Int) :
    (tenPower exponent : ℚ) =
      powerBySquaring 1 (if exponent < 0 then 1 / 10 else 10) exponent.natAbs := by
  change (10 : ℚ) ^ exponent = _
  rw [power_by_squaring_eq]
  split
  · rename_i negative
    have magnitude : exponent = -(exponent.natAbs : Int) := by omega
    conv_lhs => rw [magnitude, zpow_neg, zpow_natCast, ← inv_pow]
    congr 1
    norm_num
  · rename_i positive
    have magnitude : exponent = (exponent.natAbs : Int) := by omega
    conv_lhs => rw [magnitude, zpow_natCast]

def Quantity.exact (scale : Int) : Quantity → ℚ
  | integer value => value
  | single value => exactFloat value.toModel.unpack
  | double value => exactFloat value.toModel.unpack
  | decimal unscaled => unscaled / 10 ^ scale

namespace Element

variable {ε : Type} [Element ε]

def exact (scale : Int) (value : ε) : ℚ :=
  match reading (ε := ε) with
  | .narrow _ toInt _ _ => toInt value
  | .wide quantity => (quantity value).exact scale

theorem quantity_to_scalar (scale : Int) (quantity : Quantity) :
    (quantity.toScalar scale : ℚ) = quantity.exact scale := by
  cases quantity <;> rfl

theorem to_scalar_eq_exact (scale : Int) (value : ε) :
    (toScalar scale value : ℚ) = exact scale value := by
  unfold toScalar Reading.toScalar exact
  cases reading (ε := ε) with
  | narrow => rfl
  | wide quantity => exact quantity_to_scalar scale (quantity value)

end Element

end Comoment
