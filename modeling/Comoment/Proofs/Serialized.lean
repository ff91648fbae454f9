import Comoment.Proofs.MachineIntegers
import Comoment.Serialized.Forms

/-!
Reading undoes writing. An element type and a fill value always survive, options exactly when
their integers fit the machine. A document is read as some options when its fields say what the
options are written with, whatever else it says, so what was read once is read again.
-/

namespace Comoment

open Serializable (encode decode?)

/-- Values that survive being written. The form of none is left to the optional values. -/
class LawfulSerializable (ε : Type) [Serializable ε] : Prop where
  encode_ne_null (value : ε) : encode value ≠ .null
  decode_encode (value : ε) : decode? (encode value) = some value

namespace Document

variable {names : List String}

theorem signed_integer (bits : Nat) (value : Int) :
    (integer value).signed? bits = signed bits value := by
  have limit : ((1 <<< (bits - 1) : Nat) : Int) = 2 ^ (bits - 1) := by
    rw [Nat.one_shiftLeft, Int.natCast_pow]
    rfl
  rw [signed?, signed, limit]

theorem signed_eq_some_iff {bits : Nat} {document : Document} {value : Int} :
    document.signed? bits = some value ↔
      document = .integer value ∧ signed bits value = some value := by
  constructor
  · intro read
    cases document with
    | integer written =>
        rw [signed_integer] at read
        obtain rfl := signed_of_some read
        exact ⟨rfl, read⟩
    | _ => cases read
  · rintro ⟨rfl, fits⟩
    rw [signed_integer, fits]

theorem decode_bool_iff {document : Document} {value : Bool} :
    decode? document = some value ↔ document = .bool value := by
  cases document <;> simp [decode?]

/-- The order of a record and its other entries do not matter. -/
theorem fields_of_lookups {entries others : List (String × Document)}
    (agree : ∀ name ∈ names, entries.lookup name = others.lookup name) :
    (record entries).fields? names = (record others).fields? names :=
  congrArg some (List.map_congr_left agree)

theorem map_lookup_zip {items : List Document} (distinct : names.Nodup)
    (length : items.length = names.length) :
    names.map (fun name => (names.zip items).lookup name) = items.map some := by
  induction names generalizing items with
  | nil => rw [List.eq_nil_of_length_eq_zero length]; rfl
  | cons name names induction =>
      obtain ⟨item, items, rfl⟩ := List.exists_cons_of_length_eq_add_one length
      obtain ⟨fresh, distinct⟩ := List.nodup_cons.mp distinct
      -- The first entry answers for its own name only.
      have later : names.map (fun other => ((name, item) :: names.zip items).lookup other) =
          names.map fun other => (names.zip items).lookup other := by
        refine List.map_congr_left fun other member => ?_
        have other_ne : (other == name) = false := by
          rw [beq_eq_false_iff_ne]
          rintro rfl
          exact fresh member
        rw [List.lookup_cons, other_ne]
      rw [List.zip_cons_cons, List.map_cons, List.map_cons, List.lookup_cons_self, later,
        induction distinct (Nat.succ.inj length)]

theorem fields_of_positions {items : List Document} (distinct : names.Nodup)
    (length : items.length = names.length) :
    (list items).fields? names = (record (names.zip items)).fields? names := by
  rw [fields?, fields?, if_pos length, map_lookup_zip distinct length]

/-- A reader of fields, to which a record and the list of its fields are the same. -/
structure ReadsFields {τ : Type} (names : List String) (read : Document → Option τ) : Prop where
  lookups (entries others : List (String × Document))
    (agree : ∀ name ∈ names, entries.lookup name = others.lookup name) :
    read (.record entries) = read (.record others)
  positions (items : List Document) (length : items.length = names.length) :
    read (.list items) = read (.record (names.zip items))

theorem ReadsFields.of_fields {τ : Type} {read : Document → Option τ}
    {ofFields : List (Option Document) → Option τ} (distinct : names.Nodup)
    (factors : ∀ document, read document = (document.fields? names).bind ofFields) :
    ReadsFields names read where
  lookups entries others agree := by rw [factors, factors, fields_of_lookups agree]
  positions items length := by rw [factors, factors, fields_of_positions distinct length]

end Document

instance : LawfulSerializable Bool where
  encode_ne_null _ := by simp [encode]
  decode_encode _ := rfl

instance : LawfulSerializable String where
  encode_ne_null _ := by simp [encode]
  decode_encode _ := rfl

instance : LawfulSerializable Int32 where
  encode_ne_null _ := by simp [encode]
  decode_encode value := by
    have lower := value.le_toInt
    have upper := value.toInt_lt
    have fits : signed 32 value.toInt = some value.toInt := if_pos (by omega)
    change ((Document.integer value.toInt).signed? 32).map Int32.ofInt = some value
    rw [Document.signed_integer, fits, Option.map_some, Int32.ofInt_toInt]

theorem decode_encode_option {ε : Type} [Serializable ε] [LawfulSerializable ε]
    (value : Option ε) : decode? (encode value) = some value := by
  cases value with
  | none => rfl
  | some value =>
      have written := LawfulSerializable.encode_ne_null value
      have read := LawfulSerializable.decode_encode value
      change decode? (encode value) = some (some value)
      simp only [decode?]
      rw [read, Option.map_some]

namespace VarianceOptions

variable {document : Document} {options : VarianceOptions}

/-- What a document has to say to be read as these options. -/
theorem decode_eq_some_iff :
    decode? document = some options ↔
      document.fields? fieldNames = some [some (.integer options.ddof),
        some (.bool options.skipNulls), some (.integer options.minCount)] ∧
      signed 64 options.ddof = some options.ddof ∧
      signed 64 options.minCount = some options.minCount := by
  constructor
  · intro read
    obtain ⟨fields, written, read⟩ := Option.bind_eq_some_iff.mp read
    split at read
    · simp only [Option.bind_eq_bind, Option.bind_eq_some_iff, Option.pure_def,
        Option.some.injEq] at read
      obtain ⟨ddof, ddofRead, skipNulls, skipNullsRead, minCount, minCountRead, rfl⟩ := read
      obtain ⟨rfl, ddofFits⟩ := Document.signed_eq_some_iff.mp ddofRead
      obtain ⟨rfl, minCountFits⟩ := Document.signed_eq_some_iff.mp minCountRead
      obtain rfl := Document.decode_bool_iff.mp skipNullsRead
      exact ⟨written, ddofFits, minCountFits⟩
    · cases read
  · rintro ⟨written, ddofFits, minCountFits⟩
    refine Option.bind_eq_some_iff.mpr ⟨_, written, ?_⟩
    simp only [Option.bind_eq_bind, Option.bind_eq_some_iff]
    exact ⟨options.ddof, Document.signed_eq_some_iff.mpr ⟨rfl, ddofFits⟩, options.skipNulls, rfl,
      options.minCount, Document.signed_eq_some_iff.mpr ⟨rfl, minCountFits⟩, rfl⟩

theorem fields_of_encode (options : VarianceOptions) :
    (encode options).fields? fieldNames = some [some (.integer options.ddof),
      some (.bool options.skipNulls), some (.integer options.minCount)] :=
  rfl

theorem decode_encode_iff (options : VarianceOptions) :
    decode? (encode options) = some options ↔
      signed 64 options.ddof = some options.ddof ∧
      signed 64 options.minCount = some options.minCount := by
  rw [decode_eq_some_iff]
  exact and_iff_right (fields_of_encode options)

example : (decode? (encode { ddof := 9223372036854775808 : VarianceOptions }) :
    Option VarianceOptions) = none := by
  decide

/-- Other spellings of some options are brought to one by writing what was read. -/
theorem decode_encode_of_read (read : decode? document = some options) :
    decode? (encode options) = some options :=
  (decode_encode_iff options).mpr (decode_eq_some_iff.mp read).2

theorem decode_other_forms :
    Document.ReadsFields fieldNames (decode? : Document → Option VarianceOptions) :=
  .of_fields (by decide) fun _ => rfl

end VarianceOptions

namespace ShiftOptions

variable {ε : Type} [Serializable ε] {document : Document} {options : ShiftOptions ε}

/-- A fill value that the document leaves out is read as null is. -/
theorem decode_eq_some_iff :
    decode? document = some options ↔ ∃ fillValue,
      document.fields? fieldNames = some [some (.integer options.periods), fillValue] ∧
      decode? (fillValue.getD .null) = some options.fillValue ∧
      signed 32 options.periods = some options.periods := by
  constructor
  · intro read
    obtain ⟨fields, written, read⟩ := Option.bind_eq_some_iff.mp read
    split at read
    · simp only [Option.bind_eq_bind, Option.bind_eq_some_iff, Option.pure_def,
        Option.some.injEq] at read
      obtain ⟨periods, periodsRead, fillValue, fillValueRead, rfl⟩ := read
      obtain ⟨rfl, fits⟩ := Document.signed_eq_some_iff.mp periodsRead
      exact ⟨_, written, fillValueRead, fits⟩
    · cases read
  · rintro ⟨fillValue, written, fillValueRead, fits⟩
    refine Option.bind_eq_some_iff.mpr ⟨_, written, ?_⟩
    simp only [Option.bind_eq_bind, Option.bind_eq_some_iff]
    exact ⟨options.periods, Document.signed_eq_some_iff.mpr ⟨rfl, fits⟩, options.fillValue,
      fillValueRead, rfl⟩

theorem fields_of_encode (options : ShiftOptions ε) :
    (encode options).fields? fieldNames =
      some [some (.integer options.periods), some (encode options.fillValue)] :=
  rfl

theorem decode_encode_iff [LawfulSerializable ε] (options : ShiftOptions ε) :
    decode? (encode options) = some options ↔
      signed 32 options.periods = some options.periods := by
  rw [decode_eq_some_iff]
  constructor
  · rintro ⟨_, _, _, fits⟩
    exact fits
  · intro fits
    exact ⟨_, fields_of_encode options, decode_encode_option options.fillValue, fits⟩

theorem decode_encode_of_read [LawfulSerializable ε] (read : decode? document = some options) :
    decode? (encode options) = some options := by
  obtain ⟨_, _, _, fits⟩ := decode_eq_some_iff.mp read
  exact (decode_encode_iff options).mpr fits

theorem decode_other_forms :
    Document.ReadsFields fieldNames (decode? : Document → Option (ShiftOptions ε)) :=
  .of_fields (by decide) fun _ => rfl

end ShiftOptions

/-- An element type is its name, which may also be the only key of a record. -/
theorem DataType.decode_eq_some_iff {document : Document} {type : DataType} :
    decode? document = some type ↔
      document = .text type.name ∨ document = .record [(type.name, .null)] := by
  have named {text : String} (read : DataType.ofName? text = some type) : text = type.name := by
    have found := List.find?_some read
    exact (beq_iff_eq.mp found).symm
  constructor
  · intro read
    simp only [decode?] at read
    split at read
    · exact .inl (by rw [named read])
    · exact .inr (by rw [named read])
    · cases read
  · rintro (rfl | rfl)
    · exact DataType.of_name_name type
    · exact DataType.of_name_name type

instance : LawfulSerializable DataType where
  encode_ne_null _ := by simp [encode]
  decode_encode := DataType.of_name_name

end Comoment
