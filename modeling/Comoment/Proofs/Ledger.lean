import Comoment.Proofs.Registers
import Comoment.Proofs.Strategies

/-!
The ledger of a state: every chunk it absorbed, directly or in the states merged into it, as rows
of converted numbers. What a state should hold is read off its ledger.
-/

namespace Comoment

/-- One absorbed chunk: for each slot the two numbers, absent where a null is, and whether the
state left slots with nulls out. -/
structure Entry where
  rows : List (Option ℚ × Option ℚ)
  skipNulls : Bool

def rowPair? (row : Option ℚ × Option ℚ) : Option (ℚ × ℚ) :=
  row.1.bind fun a => row.2.map fun b => (a, b)

namespace Entry

def hasNull (entry : Entry) : Bool := entry.rows.any fun row => (rowPair? row).isNone

/-- Whether a null keeps the chunk from adding pairs. -/
def isDropped (entry : Entry) : Bool := entry.hasNull && !entry.skipNulls

def pairs (entry : Entry) : Multiset (ℚ × ℚ) :=
  if entry.isDropped then 0 else entry.rows.filterMap rowPair?

end Entry

def Chunk.ofOptions {ε : Type} [Inhabited ε] (x y : Array (Option ε)) : Chunk ε where
  x := Sequence.ofOptions x
  y := Sequence.ofOptions y
  xLawful := Sequence.of_options_lawful x
  yLawful := Sequence.of_options_lawful y

def Chunk.rows {ε : Type} [Element ε] (scale : Int) (chunk : Chunk ε) :
    List (Option ℚ × Option ℚ) :=
  (List.range chunk.x.length).map fun index =>
    ((chunk.x.get? index).map (Element.exact scale),
      (chunk.y.get? index).map (Element.exact scale))

namespace Chunk

variable {ε : Type} [Element ε] (chunk : Chunk ε)

theorem row_pair_eq (scale : Int) (index : Nat) :
    rowPair? ((chunk.x.get? index).map (Element.exact scale),
        (chunk.y.get? index).map (Element.exact scale)) =
      (chunk.x.pairAt? chunk.y index).map fun pair =>
        (Element.exact scale pair.1, Element.exact scale pair.2) := by
  unfold rowPair? Sequence.pairAt?
  cases chunk.x.get? index with
  | none => rfl
  | some a => cases chunk.y.get? index <;> rfl

theorem rows_pairs (aligned : chunk.x.length = chunk.y.length) (scale : Int) :
    ((chunk.rows scale).filterMap rowPair? : Multiset (ℚ × ℚ)) =
      numbers (Element.exact scale) (chunk.x.pairs chunk.y) := by
  unfold rows numbers Sequence.pairs
  rw [List.filterMap_map, List.map_filterMap, ← aligned, Nat.min_self]
  simp only [Function.comp_def, row_pair_eq]

theorem rows_have_null (aligned : chunk.x.length = chunk.y.length) (scale : Int)
    (skipNulls : Bool) :
    (⟨chunk.rows scale, skipNulls⟩ : Entry).hasNull =
      !(decide (chunk.x.nullCount = 0) && decide (chunk.y.nullCount = 0)) := by
  rw [Bool.eq_iff_iff]
  simp only [Entry.hasNull, rows, List.any_map, List.any_eq_true, List.mem_range, Function.comp_def,
    row_pair_eq, Option.isNone_map, Option.isNone_iff_eq_none, Sequence.pair_at_eq_none,
    Bool.not_eq_true', Bool.and_eq_false_iff, decide_eq_false_iff_not,
    chunk.xLawful.null_count_eq_zero, chunk.yLawful.null_count_eq_zero, ← aligned, not_forall,
    not_not]
  constructor
  · rintro ⟨index, inside, left | right⟩
    · exact .inl ⟨index, inside, left⟩
    · exact .inr ⟨index, inside, right⟩
  · rintro (⟨index, inside, left⟩ | ⟨index, inside, right⟩)
    · exact ⟨index, inside, .inl left⟩
    · exact ⟨index, inside, .inr right⟩

end Chunk

/-- The chunks a state absorbed, and how it was created. -/
structure Ledger where
  options : VarianceOptions
  decimalScale : Int
  entries : List Entry

namespace Ledger

def rows (ledger : Ledger) : Multiset (Option ℚ × Option ℚ) :=
  (ledger.entries.flatMap Entry.rows : List (Option ℚ × Option ℚ))

def pairs (ledger : Ledger) : Multiset (ℚ × ℚ) := (ledger.entries.map Entry.pairs).sum

def hasNull (ledger : Ledger) : Bool := ledger.entries.any Entry.hasNull

def empty (options : VarianceOptions) (decimalScale : Int) : Ledger := ⟨options, decimalScale, []⟩

variable {ε : Type} [Element ε]

def add (ledger : Ledger) (chunk : Chunk ε) : Ledger :=
  { ledger with
    entries := ⟨chunk.rows ledger.decimalScale, ledger.options.skipNulls⟩ :: ledger.entries }

def merge (first second : Ledger) : Ledger :=
  { first with entries := first.entries ++ second.entries }

/-- Two sequences of different lengths are refused, and by a ledger that takes a single chunk also
every chunk after another. -/
def consume (single : Bool) (ledger : Ledger) (chunk : Chunk ε) : Except Error Ledger :=
  if single && !ledger.entries.isEmpty then .error .alreadyConsumed
  else if chunk.x.length = chunk.y.length then .ok (ledger.add chunk)
  else .error (.lengthMismatch chunk.x.length chunk.y.length)

theorem consume_unused {ledger : Ledger} (unused : ledger.entries = []) (single : Bool)
    (chunk : Chunk ε) :
    ledger.consume single chunk =
      if chunk.x.length = chunk.y.length then .ok (ledger.add chunk)
      else .error (.lengthMismatch chunk.x.length chunk.y.length) := by
  simp [consume, unused]

def machine (single : Bool) : Machine ε Ledger :=
  .ofOutcomes empty (consume single) merge

theorem machine_consume (single : Bool) (ledger : Ledger) (chunk : Chunk ε) :
    (machine single).consume ledger chunk = ledger.consume single chunk :=
  Machine.of_outcomes_consume empty (consume single) merge ledger chunk

theorem pairs_merge (first second : Ledger) :
    (first.merge second).pairs = first.pairs + second.pairs := by
  simp [pairs, merge]

theorem has_null_merge (first second : Ledger) :
    (first.merge second).hasNull = (first.hasNull || second.hasNull) := by
  simp [hasNull, merge]

theorem has_null_rows (ledger : Ledger) :
    ledger.hasNull = true ↔ ∃ row ∈ ledger.rows, rowPair? row = none := by
  simp only [hasNull, rows, Entry.hasNull, List.any_eq_true, Multiset.mem_coe, List.mem_flatMap,
    Option.isNone_iff_eq_none]
  constructor
  · rintro ⟨entry, found, row, inside, null⟩
    exact ⟨row, ⟨entry, found, inside⟩, null⟩
  · rintro ⟨row, ⟨entry, found, inside⟩, null⟩
    exact ⟨entry, found, row, inside, null⟩

def DropsNothing (ledger : Ledger) : Prop := ∀ entry ∈ ledger.entries, entry.isDropped = false

instance (ledger : Ledger) : Decidable ledger.DropsNothing :=
  inferInstanceAs (Decidable (∀ entry ∈ ledger.entries, entry.isDropped = false))

theorem pairs_rows {ledger : Ledger} (kept : ledger.DropsNothing) :
    ledger.pairs = ledger.rows.filterMap rowPair? := by
  obtain ⟨options, decimalScale, entries⟩ := ledger
  unfold DropsNothing at kept
  unfold pairs rows
  simp only at kept ⊢
  induction entries with
  | nil => rfl
  | cons entry entries ih =>
    have first := kept entry List.mem_cons_self
    have rest := ih fun later found => kept later (List.mem_cons_of_mem entry found)
    rw [List.map_cons, List.sum_cons, rest, Entry.pairs, first]
    simp

section Add

variable (ledger : Ledger) (chunk : Chunk ε) (aligned : chunk.x.length = chunk.y.length)

include aligned

theorem has_null_add :
    (ledger.add chunk).hasNull =
      (ledger.hasNull || !(decide (chunk.x.nullCount = 0) && decide (chunk.y.nullCount = 0))) := by
  rw [← chunk.rows_have_null aligned ledger.decimalScale ledger.options.skipNulls, Bool.or_comm]
  rfl

theorem pairs_add :
    (ledger.add chunk).pairs =
      ledger.pairs +
        if (decide (chunk.x.nullCount = 0) && decide (chunk.y.nullCount = 0)) ||
            ledger.options.skipNulls then
          numbers (Element.exact ledger.decimalScale) (chunk.x.pairs chunk.y)
        else 0 := by
  have null := chunk.rows_have_null aligned ledger.decimalScale ledger.options.skipNulls
  rw [add_comm]
  simp only [pairs, add, List.map_cons, List.sum_cons, Entry.pairs, Entry.isDropped, null,
    chunk.rows_pairs aligned]
  cases ledger.options.skipNulls <;>
    cases decide (chunk.x.nullCount = 0) && decide (chunk.y.nullCount = 0) <;> rfl

theorem pairs_add_unused (unused : ledger.entries = []) :
    (ledger.add chunk).pairs = 0 ∨
      (ledger.add chunk).pairs =
        numbers (Element.exact ledger.decimalScale) (chunk.x.pairs chunk.y) := by
  have noPairs : ledger.pairs = 0 := by
    simp [pairs, unused]
  rw [ledger.pairs_add chunk aligned, noPairs, zero_add]
  split
  · exact .inr rfl
  · exact .inl rfl

end Add

end Ledger

end Comoment
