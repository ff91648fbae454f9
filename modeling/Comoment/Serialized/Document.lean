/-!
Self-describing documents: the values that options and types are written to and read from, before
any text format is chosen.
-/

namespace Comoment

inductive Document where
  | null
  | bool (value : Bool)
  | integer (value : Int)
  /-- A number written with a fraction or an exponent, which is never read as an integer. -/
  | real (value : Float)
  | text (value : String)
  | list (items : List Document)
  | record (entries : List (String × Document))
  deriving Inhabited

/-- Values with a written form. -/
class Serializable (ε : Type) where
  encode : ε → Document
  decode? : Document → Option ε

namespace Document

/-- The integer of a document, when it is one of `bits` signed bits. -/
def signed? (bits : Nat) : Document → Option Int
  | integer value =>
      let limit : Nat := 1 <<< (bits - 1)
      if -(limit : Int) ≤ value ∧ value < limit then some value else none
  | _ => none

/-- The fields of a structure with the given names: from a record by name, where other names do
not matter, or from a list of exactly as many items by position. -/
def fields? (names : List String) : Document → Option (List (Option Document))
  | record entries => some (names.map fun name => entries.lookup name)
  | list items => if items.length = names.length then some (items.map some) else none
  | _ => none

end Document

instance : Serializable Bool where
  encode := .bool
  decode?
    | .bool value => some value
    | _ => none

instance : Serializable String where
  encode := .text
  decode?
    | .text value => some value
    | _ => none

instance : Serializable Int32 where
  encode value := .integer value.toInt
  decode? document := (document.signed? 32).map Int32.ofInt

instance {ε : Type} [Serializable ε] : Serializable (Option ε) where
  encode
    | none => .null
    | some value => Serializable.encode value
  decode?
    | .null => some none
    | document => (Serializable.decode? document).map some

end Comoment
