import Comoment.Proofs.Tallies
import Comoment.Proofs.Windows

/-!
Chunks put together. The rows of the concatenated columns are the rows of the chunks, and ledgers
with the same rows have the same value: as many pairs, the same nulls, and where nothing is dropped
the same pairs.
-/

namespace Comoment

variable {ε : Type}

theorem Chunk.zip_flat_map {chunks : List (Chunk ε)}
    (aligned : ∀ chunk ∈ chunks, chunk.x.length = chunk.y.length) :
    (chunks.flatMap fun chunk => chunk.x.toOptions).zip
        (chunks.flatMap fun chunk => chunk.y.toOptions) =
      chunks.flatMap fun chunk => chunk.x.toOptions.zip chunk.y.toOptions := by
  induction chunks with
  | nil => rfl
  | cons chunk chunks ih =>
    have length : chunk.x.toOptions.length = chunk.y.toOptions.length := by
      rw [Sequence.to_options_length, Sequence.to_options_length,
        aligned chunk List.mem_cons_self]
    rw [List.flatMap_cons, List.flatMap_cons, List.flatMap_cons, List.zip_append length,
      ih fun later found => aligned later (List.mem_cons_of_mem chunk found)]

variable [Element ε]

namespace Chunk

theorem rows_eq_zip (chunk : Chunk ε) (aligned : chunk.x.length = chunk.y.length) (scale : Int) :
    chunk.rows scale = (chunk.x.toOptions.zip chunk.y.toOptions).map fun row =>
      (row.1.map (Element.exact scale), row.2.map (Element.exact scale)) := by
  unfold rows Sequence.toOptions
  rw [← aligned, List.zip_map', List.map_map]
  rfl

def concat (chunks : List (Chunk ε)) : Chunk ε where
  x := (Column.ofOptions (chunks.flatMap fun chunk => chunk.x.toOptions)).toSequence
  y := (Column.ofOptions (chunks.flatMap fun chunk => chunk.y.toOptions)).toSequence
  xLawful := Column.to_sequence_lawful _
  yLawful := Column.to_sequence_lawful _

theorem concat_options (chunks : List (Chunk ε)) :
    (concat chunks).x.toOptions = (chunks.flatMap fun chunk => chunk.x.toOptions) ∧
      (concat chunks).y.toOptions = chunks.flatMap fun chunk => chunk.y.toOptions :=
  ⟨Column.of_options_to_options _, Column.of_options_to_options _⟩

section Aligned

variable {chunks : List (Chunk ε)} (aligned : ∀ chunk ∈ chunks, chunk.x.length = chunk.y.length)

include aligned

theorem concat_aligned : (concat chunks).x.length = (concat chunks).y.length := by
  obtain ⟨optionsX, optionsY⟩ := concat_options chunks
  have lengths : ∀ chunk ∈ chunks, chunk.x.toOptions.length = chunk.y.toOptions.length := by
    intro chunk found
    rw [Sequence.to_options_length, Sequence.to_options_length, aligned chunk found]
  rw [← Sequence.to_options_length, ← Sequence.to_options_length, optionsX, optionsY,
    List.length_flatMap, List.length_flatMap]
  exact congrArg List.sum (List.map_congr_left lengths)

theorem concat_rows (scale : Int) :
    (concat chunks).rows scale = chunks.flatMap (rows scale) := by
  obtain ⟨optionsX, optionsY⟩ := concat_options chunks
  rw [rows_eq_zip _ (concat_aligned aligned), optionsX, optionsY, zip_flat_map aligned,
    List.map_flatMap]
  apply List.flatMap_congr
  intro chunk found
  exact (rows_eq_zip chunk (aligned chunk found) scale).symm

end Aligned

end Chunk

namespace Ledger

def ofChunks (options : VarianceOptions) (chunks : List (Chunk ε)) : Ledger where
  options := options
  decimalScale := 0
  entries := chunks.map fun chunk => ⟨chunk.rows 0, options.skipNulls⟩

theorem of_chunks_append (options : VarianceOptions) (first second : List (Chunk ε)) :
    ofChunks options (first ++ second) =
      (ofChunks options first).merge (ofChunks options second) := by
  simp [ofChunks, merge]

theorem of_chunks_rows (options : VarianceOptions) (chunks : List (Chunk ε)) :
    (ofChunks options chunks).rows = (chunks.flatMap (Chunk.rows 0) : List _) := by
  simp [ofChunks, rows, List.flatMap_map]

theorem of_concat_rows (options : VarianceOptions) {chunks : List (Chunk ε)}
    (aligned : ∀ chunk ∈ chunks, chunk.x.length = chunk.y.length) :
    (ofChunks options [Chunk.concat chunks]).rows = (ofChunks options chunks).rows := by
  rw [of_chunks_rows, of_chunks_rows, List.flatMap_singleton, Chunk.concat_rows aligned]

theorem of_chunks_drops_nothing {options : VarianceOptions} {chunks : List (Chunk ε)}
    (kept : options.skipNulls = true ∨ (ofChunks options chunks).hasNull = false) :
    (ofChunks options chunks).DropsNothing := by
  intro entry found
  have skips : entry.skipNulls = options.skipNulls := by
    obtain ⟨chunk, _, rfl⟩ := List.mem_map.mp found
    rfl
  unfold Entry.isDropped
  rcases kept with skipped | clean
  · simp [skips, skipped]
  · have valid : entry.hasNull = false := by
      simpa using List.any_eq_false.mp clean entry found
    simp [valid]

section SameRows

variable {options : VarianceOptions} {chunks others : List (Chunk ε)}
  (sameRows : (ofChunks options chunks).rows = (ofChunks options others).rows)

include sameRows

theorem of_chunks_has_null :
    (ofChunks options chunks).hasNull = (ofChunks options others).hasNull := by
  rw [Bool.eq_iff_iff, has_null_rows, has_null_rows, sameRows]

theorem of_chunks_pairs
    (kept : options.skipNulls = true ∨ (ofChunks options chunks).hasNull = false) :
    (ofChunks options chunks).pairs = (ofChunks options others).pairs := by
  have otherKept : options.skipNulls = true ∨ (ofChunks options others).hasNull = false := by
    rw [← of_chunks_has_null sameRows]
    exact kept
  rw [pairs_rows (of_chunks_drops_nothing kept), pairs_rows (of_chunks_drops_nothing otherKept),
    sameRows]

theorem of_chunks_admits : (ofChunks options chunks).admits = (ofChunks options others).admits := by
  have sameNull := of_chunks_has_null sameRows
  by_cases kept : options.skipNulls = true ∨ (ofChunks options chunks).hasNull = false
  · unfold admits
    rw [of_chunks_pairs sameRows kept, sameNull]
    rfl
  -- the chunks without a null keep pairs that the whole drops, and neither has a value
  · rw [not_or, Bool.not_eq_true, Bool.not_eq_false] at kept
    have refused := (ofChunks options chunks).admits_dropped kept.1 kept.2
    have otherNull := sameNull.symm.trans kept.2
    have otherRefused := (ofChunks options others).admits_dropped kept.1 otherNull
    exact refused.trans otherRefused.symm

theorem of_chunks_admitted (admitted : (ofChunks options chunks).admits = true) :
    (ofChunks options chunks).DropsNothing ∧ (ofChunks options others).DropsNothing := by
  have kept : options.skipNulls = true ∨ (ofChunks options chunks).hasNull = false :=
    admits_kept admitted
  have otherKept : options.skipNulls = true ∨ (ofChunks options others).hasNull = false := by
    rw [← of_chunks_has_null sameRows]
    exact kept
  exact ⟨of_chunks_drops_nothing kept, of_chunks_drops_nothing otherKept⟩

end SameRows

end Ledger

namespace CovarianceState

variable {options : VarianceOptions} {chunks others : List (Chunk ε)}
  (sameRows : (Ledger.ofChunks options chunks).rows = (Ledger.ofChunks options others).rows)

include sameRows

theorem of_chunks_eq (admitted : (Ledger.ofChunks options chunks).admits = true) :
    (ofLedger (.ofChunks options chunks) : CovarianceState ε ℚ) =
      ofLedger (.ofChunks options others) := by
  obtain ⟨kept, otherKept⟩ := Ledger.of_chunks_admitted sameRows admitted
  exact of_ledger_eq rfl rfl sameRows kept otherKept

theorem of_chunks_value :
    (ofLedger (.ofChunks options chunks) : CovarianceState ε ℚ).value? =
      (ofLedger (.ofChunks options others) : CovarianceState ε ℚ).value? := by
  cases admitted : (Ledger.ofChunks options chunks).admits with
  | false =>
    have otherRefused := (Ledger.of_chunks_admits sameRows).symm.trans admitted
    rw [(of_ledger_tallies _).value_none.mpr admitted,
      (of_ledger_tallies _).value_none.mpr otherRefused]
  | true => rw [of_chunks_eq sameRows admitted]

end CovarianceState

namespace CorrelationState

omit [Element ε] in
/-- The value does not tell whether a chunk was absorbed. -/
theorem value_congr {α : Type} [Scalar α] [SquareRoot α] {state other : CorrelationState ε α}
    (covariance : state.covariance = other.covariance) (squaresX : state.squaresX = other.squaresX)
    (squaresY : state.squaresY = other.squaresY) : state.value? = other.value? := by
  unfold value?
  rw [covariance, squaresX, squaresY]

theorem of_chunks_value [SquareRoot ℚ] {options : VarianceOptions} {chunks others : List (Chunk ε)}
    (sameRows : (Ledger.ofChunks options chunks).rows = (Ledger.ofChunks options others).rows) :
    (ofLedger (.ofChunks options chunks) : CorrelationState ε ℚ).value? =
      (ofLedger (.ofChunks options others) : CorrelationState ε ℚ).value? := by
  cases admitted : (Ledger.ofChunks options chunks).admits with
  | false =>
    have otherRefused := (Ledger.of_chunks_admits sameRows).symm.trans admitted
    rw [(of_ledger_tallies _).value_none.mpr admitted,
      (of_ledger_tallies _).value_none.mpr otherRefused]
  | true =>
    have pairs := Ledger.of_chunks_pairs sameRows (Ledger.admits_kept admitted)
    apply value_congr
    · exact CovarianceState.of_chunks_eq sameRows admitted
    · simp only [ofLedger, pairs]
    · simp only [ofLedger, pairs]

end CorrelationState

end Comoment
