import Comoment.DataType
import Comoment.Options
import Comoment.Serialized.Document

/-!
Written forms of the options and of the element types. Options are records of all their fields; an
element type is its name. A record may hold other fields, a list of the fields in order is read as
the record, and a name may stand as the only key of a record whose value is null.
-/

namespace Comoment

def VarianceOptions.fieldNames : List String := ["ddof", "skip_nulls", "min_count"]

instance : Serializable VarianceOptions where
  encode options := .record
    [("ddof", .integer options.ddof), ("skip_nulls", .bool options.skipNulls),
      ("min_count", .integer options.minCount)]
  decode? document := do
    let [some ddof, some skipNulls, some minCount] ←
      document.fields? VarianceOptions.fieldNames | none
    return { ddof := ← ddof.signed? 64
             skipNulls := ← Serializable.decode? skipNulls
             minCount := ← minCount.signed? 64 }

def ShiftOptions.fieldNames : List String := ["periods", "fill_value"]

/-- A missing fill value is none. -/
instance {ε : Type} [Serializable ε] : Serializable (ShiftOptions ε) where
  encode options := .record
    [("periods", .integer options.periods), ("fill_value", Serializable.encode options.fillValue)]
  decode? document := do
    let [some periods, fillValue] ← document.fields? ShiftOptions.fieldNames | none
    return { periods := ← periods.signed? 32
             fillValue := ← Serializable.decode? (fillValue.getD .null) }

instance : Serializable DataType where
  encode type := .text type.name
  decode?
    | .text name => DataType.ofName? name
    | .record [(name, .null)] => DataType.ofName? name
    | _ => none

end Comoment
