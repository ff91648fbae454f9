import Comoment.Column.Basic
import Comoment.Correlation

/-!
Columns whose element type is known only when the program runs. An aggregation has one arm for each
numeric type, taken when both operands are of that type. For the other operands an unsupported type
is reported before a difference of types, and both before a difference of lengths.
-/

namespace Comoment

inductive AnyColumn where
  | boolean (column : Column Bool)
  | int8 (column : Column Int8)
  | int16 (column : Column Int16)
  | int32 (column : Column Int32)
  | int64 (column : Column Int64)
  | uint8 (column : Column UInt8)
  | uint16 (column : Column UInt16)
  | uint32 (column : Column UInt32)
  | uint64 (column : Column UInt64)
  | float16 (column : Column Half)
  | float32 (column : Column Float32)
  | float64 (column : Column Float)
  /-- The scale is the number of fractional decimal digits. -/
  | decimal128 (column : Column Decimal128) (scale : Int)
  | utf8 (column : Column String)
  | binary (column : Column ByteArray)

namespace AnyColumn

def type : AnyColumn → DataType
  | .boolean _ => .boolean
  | .int8 _ => .int8
  | .int16 _ => .int16
  | .int32 _ => .int32
  | .int64 _ => .int64
  | .uint8 _ => .uint8
  | .uint16 _ => .uint16
  | .uint32 _ => .uint32
  | .uint64 _ => .uint64
  | .float16 _ => .float16
  | .float32 _ => .float32
  | .float64 _ => .float64
  | .decimal128 _ _ => .decimal128
  | .utf8 _ => .utf8
  | .binary _ => .binary

def column : (any : AnyColumn) → Column any.type.Carrier
  | .boolean column => column
  | .int8 column => column
  | .int16 column => column
  | .int32 column => column
  | .int64 column => column
  | .uint8 column => column
  | .uint16 column => column
  | .uint32 column => column
  | .uint64 column => column
  | .float16 column => column
  | .float32 column => column
  | .float64 column => column
  | .decimal128 column _ => column
  | .utf8 column => column
  | .binary column => column

def scale : AnyColumn → Int
  | .decimal128 _ scale => scale
  | _ => 0

def scale? : AnyColumn → Option Int
  | .decimal128 _ scale => some scale
  | _ => none

def length : AnyColumn → Nat
  | .boolean column => column.length
  | .int8 column => column.length
  | .int16 column => column.length
  | .int32 column => column.length
  | .int64 column => column.length
  | .uint8 column => column.length
  | .uint16 column => column.length
  | .uint32 column => column.length
  | .uint64 column => column.length
  | .float16 column => column.length
  | .float32 column => column.length
  | .float64 column => column.length
  | .decimal128 column _ => column.length
  | .utf8 column => column.length
  | .binary column => column.length

/-- The column under the tag of its type; the scale is dropped unless it is one of decimals. -/
def tagged (scale : Int) : (type : DataType) → Column type.Carrier → AnyColumn
  | .boolean, column => .boolean column
  | .int8, column => .int8 column
  | .int16, column => .int16 column
  | .int32, column => .int32 column
  | .int64, column => .int64 column
  | .uint8, column => .uint8 column
  | .uint16, column => .uint16 column
  | .uint32, column => .uint32 column
  | .uint64, column => .uint64 column
  | .float16, column => .float16 column
  | .float32, column => .float32 column
  | .float64, column => .float64 column
  | .decimal128, column => .decimal128 column scale
  | .utf8, column => .utf8 column
  | .binary, column => .binary column

def ofColumn (type : DataType) (column : Column type.Carrier) : AnyColumn := tagged 0 type column

def ofDecimals (column : Column Decimal128) (scale : Int) : AnyColumn := .decimal128 column scale

/-- Why two operands have no aggregation in common. -/
def dispatchError (x y : DataType) : Error :=
  match Strategy.select x, Strategy.select y with
  | .error error, _ => error
  | .ok _, .error error => error
  | .ok _, .ok _ => .typeMismatch x y

/-- Applies an aggregation to two columns of one numeric type, decimals with the scale of the
first. -/
def dispatch {β : Type}
    (aggregate : {ε : Type} → [Element ε] → Int → Sequence ε → Sequence ε → Except Error β) :
    AnyColumn → AnyColumn → Except Error β
  | .int8 x, .int8 y => aggregate 0 x.toSequence y.toSequence
  | .int16 x, .int16 y => aggregate 0 x.toSequence y.toSequence
  | .int32 x, .int32 y => aggregate 0 x.toSequence y.toSequence
  | .int64 x, .int64 y => aggregate 0 x.toSequence y.toSequence
  | .uint8 x, .uint8 y => aggregate 0 x.toSequence y.toSequence
  | .uint16 x, .uint16 y => aggregate 0 x.toSequence y.toSequence
  | .uint32 x, .uint32 y => aggregate 0 x.toSequence y.toSequence
  | .uint64 x, .uint64 y => aggregate 0 x.toSequence y.toSequence
  | .float32 x, .float32 y => aggregate 0 x.toSequence y.toSequence
  | .float64 x, .float64 y => aggregate 0 x.toSequence y.toSequence
  | .decimal128 x scale, .decimal128 y _ => aggregate scale x.toSequence y.toSequence
  | x, y => .error (dispatchError x.type y.type)

variable {α : Type} [Scalar α]

def covariance (options : VarianceOptions) (x y : AnyColumn) : Except Error (Option α) :=
  dispatch (fun scale x y => covarianceScaled scale options x y) x y

def correlation [SquareRoot α] (options : VarianceOptions) (x y : AnyColumn) :
    Except Error (Option α) :=
  dispatch (fun scale x y => correlationScaled scale options x y) x y

def variance (options : VarianceOptions) (values : AnyColumn) : Except Error (Option α) :=
  covariance options values values

end AnyColumn

end Comoment
