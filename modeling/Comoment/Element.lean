import Comoment.Scalar
import Comoment.Strategy

/-!
Numeric elements: the element types that have a covariance, how a value of each is read as a
number, and the agreement of that reading with the table of accumulations.
-/

namespace Comoment

inductive Quantity where
  | integer (value : Int)
  | single (value : Float32)
  | double (value : Float)
  /-- An integer to be divided by a power of ten, whose exponent travels with the column. -/
  | decimal (unscaled : Int)

/-- The quantity as a scalar; `scale` is the exponent for decimals. -/
def Quantity.toScalar {α : Type} [Scalar α] (scale : Int) : Quantity → α
  | integer value => Scalar.ofInt value
  | single value => Scalar.ofSingle value
  | double value => Scalar.ofDouble value
  | decimal unscaled => Scalar.ofInt unscaled / Scalar.tenPower scale

/-- How values of `ε` are read as numbers. -/
inductive Reading (ε : Type) where
  /-- Integers whose size fits in `bitWidth` bits, summed exactly. -/
  | narrow (bitWidth : Nat) (toInt : ε → Int) (bitWidth_le : bitWidth ≤ 32)
      (natAbs_lt : ∀ value, (toInt value).natAbs < 1 <<< bitWidth)
  /-- Numbers that are summed in floating point. -/
  | wide (quantity : ε → Quantity)

namespace Reading

variable {ε : Type}

def strategy : Reading ε → Strategy
  | narrow bitWidth _ _ _ => .integerExact bitWidth
  | wide _ => .twoPass

def toScalar {α : Type} [Scalar α] (scale : Int) : Reading ε → ε → α
  | narrow _ toInt _ _, value => Scalar.ofInt (toInt value)
  | wide quantity, value => (quantity value).toScalar scale

end Reading

class Element (ε : Type) extends Inhabited ε where
  dataType : DataType
  reading : Reading ε
  /-- The reading calls for the accumulation that the table gives for the type. -/
  select_dataType : Strategy.select dataType = .ok reading.strategy

namespace Element

instance : Element Int8 where
  dataType := .int8
  reading := .narrow 8 Int8.toInt (by decide) fun value => by
    have lower := value.le_toInt
    have upper := value.toInt_lt
    omega
  select_dataType := rfl

instance : Element Int16 where
  dataType := .int16
  reading := .narrow 16 Int16.toInt (by decide) fun value => by
    have lower := value.le_toInt
    have upper := value.toInt_lt
    omega
  select_dataType := rfl

instance : Element Int32 where
  dataType := .int32
  reading := .narrow 32 Int32.toInt (by decide) fun value => by
    have lower := value.le_toInt
    have upper := value.toInt_lt
    omega
  select_dataType := rfl

instance : Element UInt8 where
  dataType := .uint8
  reading := .narrow 8 (fun value => value.toNat) (by decide) fun value => by
    have upper := value.toNat_lt
    omega
  select_dataType := rfl

instance : Element UInt16 where
  dataType := .uint16
  reading := .narrow 16 (fun value => value.toNat) (by decide) fun value => by
    have upper := value.toNat_lt
    omega
  select_dataType := rfl

instance : Element UInt32 where
  dataType := .uint32
  reading := .narrow 32 (fun value => value.toNat) (by decide) fun value => by
    have upper := value.toNat_lt
    omega
  select_dataType := rfl

instance : Element Int64 where
  dataType := .int64
  reading := .wide fun value => .integer value.toInt
  select_dataType := rfl

instance : Element UInt64 where
  dataType := .uint64
  reading := .wide fun value => .integer value.toNat
  select_dataType := rfl

instance : Element Float32 where
  dataType := .float32
  reading := .wide .single
  select_dataType := rfl

instance : Element Float where
  dataType := .float64
  reading := .wide .double
  select_dataType := rfl

instance : Element Decimal128 where
  dataType := .decimal128
  reading := .wide fun value => .decimal value.unscaled
  select_dataType := rfl

def toScalar {ε α : Type} [Element ε] [Scalar α] (scale : Int) (value : ε) : α :=
  (reading (ε := ε)).toScalar scale value

end Element

def DataType.element? : (type : DataType) → Option (Element type.Carrier)
  | int8 => some (inferInstanceAs (Element Int8))
  | int16 => some (inferInstanceAs (Element Int16))
  | int32 => some (inferInstanceAs (Element Int32))
  | int64 => some (inferInstanceAs (Element Int64))
  | uint8 => some (inferInstanceAs (Element UInt8))
  | uint16 => some (inferInstanceAs (Element UInt16))
  | uint32 => some (inferInstanceAs (Element UInt32))
  | uint64 => some (inferInstanceAs (Element UInt64))
  | float32 => some (inferInstanceAs (Element Float32))
  | float64 => some (inferInstanceAs (Element Float))
  | decimal128 => some (inferInstanceAs (Element Decimal128))
  | boolean | float16 | utf8 | binary => none

end Comoment
