/-!
Element types of a column: the tags, their names, and the Lean type that holds a value of each.
Every tag is read back from its name, and every carrier has the value that fills a null slot.
-/

namespace Comoment

inductive DataType where
  | boolean
  | int8
  | int16
  | int32
  | int64
  | uint8
  | uint16
  | uint32
  | uint64
  | float16
  | float32
  | float64
  | decimal128
  | utf8
  | binary
  deriving DecidableEq, Repr, Inhabited

/-- A half precision float, stored as its bits and never computed with. -/
structure Half where
  bits : UInt16
  deriving DecidableEq, Repr, Inhabited

/-- Two to the power 127, which a signed 128 bit integer just fails to reach. -/
def decimalLimit : Int := 170141183460469231731687303715884105728

/-- A decimal without its scale, which travels beside the column. -/
structure Decimal128 where
  unscaled : Int
  lower : -decimalLimit ≤ unscaled := by decide
  upper : unscaled < decimalLimit := by decide
  deriving DecidableEq, Repr

namespace Decimal128

instance : Inhabited Decimal128 where
  default := { unscaled := 0 }

def ofInt? (unscaled : Int) : Option Decimal128 :=
  if bounds : -decimalLimit ≤ unscaled ∧ unscaled < decimalLimit then
    some ⟨unscaled, bounds.1, bounds.2⟩
  else none

end Decimal128

namespace DataType

def all : List DataType :=
  [boolean, int8, int16, int32, int64, uint8, uint16, uint32, uint64, float16, float32, float64,
    decimal128, utf8, binary]

def name : DataType → String
  | boolean => "Boolean"
  | int8 => "Int8"
  | int16 => "Int16"
  | int32 => "Int32"
  | int64 => "Int64"
  | uint8 => "UInt8"
  | uint16 => "UInt16"
  | uint32 => "UInt32"
  | uint64 => "UInt64"
  | float16 => "Float16"
  | float32 => "Float32"
  | float64 => "Float64"
  | decimal128 => "Decimal128"
  | utf8 => "Utf8"
  | binary => "Binary"

def ofName? (text : String) : Option DataType :=
  all.find? fun type => type.name == text

theorem of_name_name (type : DataType) : ofName? type.name = some type := by
  cases type <;> decide

abbrev Carrier : DataType → Type
  | boolean => Bool
  | int8 => Int8
  | int16 => Int16
  | int32 => Int32
  | int64 => Int64
  | uint8 => UInt8
  | uint16 => UInt16
  | uint32 => UInt32
  | uint64 => UInt64
  | float16 => Half
  | float32 => Float32
  | float64 => Float
  | decimal128 => Decimal128
  | utf8 => String
  | binary => ByteArray

instance (type : DataType) : Inhabited type.Carrier where
  default := match type with
    | boolean => false
    | int8 => 0
    | int16 => 0
    | int32 => 0
    | int64 => 0
    | uint8 => 0
    | uint16 => 0
    | uint32 => 0
    | uint64 => 0
    | float16 => ⟨0⟩
    | float32 => (0 : Float32)
    | float64 => (0 : Float)
    | decimal128 => { unscaled := 0 }
    | utf8 => ""
    | binary => ByteArray.empty

end DataType

end Comoment
