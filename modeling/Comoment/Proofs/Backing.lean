import Comoment.Proofs.Windows
import Comoment.Proofs.WordWalk

/-!
Every sequence that the library provides is lawful: columns, arrays of values and of options,
references, and windows nested to any depth, over these or over a lawful sequence of the host. The
walks are repeated in the positions of a machine: the end of a window is the last position when it
lies past it, and a sum or a difference that is no position fails. None fails in memory.
-/

namespace Comoment

def saturatingSum (last first second : Nat) : Nat := min (first + second) last

def positionLess (position start : Nat) : Option Nat :=
  if start ≤ position then some (position - start) else none

theorem position_less_eq {position start : Nat} (ordered : start ≤ position) :
    positionLess position start = some (position - start) := if_pos ordered

def denseRunsChecked (last size offset length : Nat) : Option (List Run) :=
  let stop := min (saturatingSum last offset length) size
  if offset < stop then do
    let span ← positionLess stop offset
    return [⟨offset, span⟩]
  else some []

theorem dense_runs_checked_eq {last size : Nat} (inMemory : size ≤ last) (offset length : Nat) :
    denseRunsChecked last size offset length = some (Sequence.denseRuns size offset length) := by
  have stop : min (saturatingSum last offset length) size = min (offset + length) size := by
    unfold saturatingSum
    omega
  unfold denseRunsChecked Sequence.denseRuns
  rw [stop]
  dsimp only
  split
  · rename_i nonempty
    rw [position_less_eq (Nat.le_of_lt nonempty)]
    rfl
  · rfl

namespace Run

def scanFromChecked (last : Nat) (valid : Nat → Bool) (opened : Option Nat) (position : Nat) :
    Nat → Option (List Run)
  | 0 =>
    match opened with
    | none => some []
    | some start => do
      let span ← positionLess position start
      return [⟨start, span⟩]
  | remaining + 1 => do
    let next ← positionUpTo last (position + 1)
    match valid position, opened with
    | true, none => scanFromChecked last valid (some position) next remaining
    | false, some start =>
      let span ← positionLess position start
      let rest ← scanFromChecked last valid none next remaining
      return ⟨start, span⟩ :: rest
    | _, opened => scanFromChecked last valid opened next remaining

def scanChecked (last : Nat) (valid : Nat → Bool) (size offset length : Nat) :
    Option (List Run) :=
  let stop := min (saturatingSum last offset length) size
  scanFromChecked last valid none offset (stop - offset)

theorem scan_from_checked_eq {last : Nat} (valid : Nat → Bool) (opened : Option Nat)
    (position remaining : Nat) (inMemory : position + remaining ≤ last)
    (behind : ∀ start ∈ opened, start ≤ position) :
    scanFromChecked last valid opened position remaining =
      some (scanFrom valid opened position remaining) := by
  induction remaining generalizing opened position with
  | zero =>
    cases opened with
    | none => rfl
    | some start =>
      rw [scanFromChecked, position_less_eq (behind start rfl)]
      rfl
  | succ remaining ih =>
    have next : positionUpTo last (position + 1) = some (position + 1) :=
      position_eq_some (by omega)
    have later : ∀ start ∈ opened, start ≤ position + 1 :=
      fun start found => Nat.le_succ_of_le (behind start found)
    cases value : valid position with
    | false =>
      cases opened with
      | none =>
        simp only [scanFromChecked, scanFrom, next, value, Option.bind_eq_bind, Option.bind_some]
        exact ih none (position + 1) (by omega) later
      | some start =>
        have rest := ih none (position + 1) (by omega) (by simp)
        simp only [scanFromChecked, scanFrom, next, value, Option.bind_eq_bind, Option.bind_some,
          rest, position_less_eq (behind start rfl)]
        rfl
    | true =>
      cases opened with
      | none =>
        simp only [scanFromChecked, scanFrom, next, value, Option.bind_eq_bind, Option.bind_some]
        exact ih (some position) (position + 1) (by omega) (by simp)
      | some start =>
        simp only [scanFromChecked, scanFrom, next, value, Option.bind_eq_bind, Option.bind_some]
        exact ih (some start) (position + 1) (by omega) later

theorem scan_checked_eq {last size : Nat} (valid : Nat → Bool) (inMemory : size ≤ last)
    (offset length : Nat) :
    scanChecked last valid size offset length =
      some (scan valid offset (min (offset + length) size)) := by
  have stop : min (saturatingSum last offset length) size = min (offset + length) size := by
    unfold saturatingSum
    omega
  unfold scanChecked
  rw [stop]
  by_cases inside : offset ≤ min (offset + length) size
  · exact scan_from_checked_eq valid none offset _ (by omega) (by simp)
  · have empty : min (offset + length) size - offset = 0 := by omega
    dsimp only
    rw [scan, empty]
    rfl

end Run

/-- What a sequence stands on. -/
inductive Backing (ε : Type) where
  | column (stored : Column ε)
  | array (values : Array ε)
  | options (slots : Array (Option ε))
  /-- A sequence from outside the library, whose answers describe the same slots. -/
  | host (values : Sequence ε) (lawful : values.Lawful)
  /-- A reference, which passes every question on. -/
  | reference (target : Backing ε)
  | window (below : Backing ε) (offset length : Nat)

variable {ε : Type} [Inhabited ε]

def Backing.toSequence : Backing ε → Sequence ε
  | column stored => stored.toSequence
  | array values => .ofArray values
  | options slots => .ofOptions slots
  | host values _ => values
  | reference target => target.toSequence
  | window below offset length => below.toSequence.slice offset length

theorem Backing.to_sequence_lawful (backing : Backing ε) : backing.toSequence.Lawful := by
  induction backing with
  | column stored => exact stored.to_sequence_lawful
  | array values => exact Sequence.of_array_lawful values
  | options slots => exact Sequence.of_options_lawful slots
  | host values lawful => exact lawful
  | reference target ih => exact ih
  | window below offset length ih => exact Sequence.slice_lawful ih offset length

/-- The machine has a position for every slot, and for every bit of the words of a bitmap. -/
def Backing.Addressed (last : Nat) : Backing ε → Prop
  | column stored => stored.values.size ≤ last ∧
      ∀ bits, stored.validity = some bits → 64 * bits.words.size ≤ last
  | array values => values.size ≤ last
  | options slots => slots.size ≤ last
  | host values _ => values.length ≤ last
  | reference target => target.Addressed last
  | window below _ _ => below.Addressed last

/-- The walk in the positions of a machine; a sequence of the host brings its own. -/
def Backing.runsChecked (last : Nat) : Backing ε → Nat → Nat → Option (List Run)
  | column stored, offset, length =>
    match stored.validity with
    | none => denseRunsChecked last stored.values.size offset length
    | some bits => bits.packed.setRunsChecked last offset length
  | array values, offset, length => denseRunsChecked last values.size offset length
  | options slots, offset, length =>
    Run.scanChecked last (Sequence.ofOptions slots).isValid slots.size offset length
  | host values _, offset, length => some (values.runsIn offset length)
  | reference target, offset, length => target.runsChecked last offset length
  | window below windowOffset windowLength, offset, length => do
    let window := below.toSequence.window windowOffset windowLength
    let start := min offset window.length
    let first ← positionUpTo last (window.offset + start)
    let runs ← below.runsChecked last first (min length (window.length - start))
    runs.mapM fun run => do
      let start ← positionLess run.start window.offset
      return ⟨start, run.length⟩

theorem Backing.Addressed.length_le {last : Nat} {backing : Backing ε}
    (addressed : backing.Addressed last) : backing.toSequence.length ≤ last := by
  induction backing with
  | column stored => exact addressed.1
  | array values => exact addressed
  | options slots => exact addressed
  | host values lawful => exact addressed
  | reference target ih => exact ih addressed
  | window below offset length ih =>
    have inside := ih addressed
    change (below.toSequence.slice offset length).length ≤ last
    rw [Sequence.slice_length]
    omega

/-- Moving runs back by the offset of a window does not fail when they begin in the window. -/
theorem Run.shift_down_checked_eq {offset : Nat} {runs : List Run}
    (later : ∀ run ∈ runs, offset ≤ run.start) :
    (runs.mapM fun run => do
      let start ← positionLess run.start offset
      return (⟨start, run.length⟩ : Run)) = some (runs.map (shiftDown offset)) := by
  induction runs with
  | nil => rfl
  | cons run runs ih =>
    rw [List.mapM_cons, position_less_eq (later run List.mem_cons_self),
      ih fun other found => later other (List.mem_cons_of_mem run found)]
    rfl

theorem Backing.runs_checked_eq {last : Nat} {backing : Backing ε}
    (addressed : backing.Addressed last) (offset length : Nat) :
    backing.runsChecked last offset length = some (backing.toSequence.runsIn offset length) := by
  induction backing generalizing offset length with
  | column stored =>
    change _ = some (stored.runsIn offset length)
    unfold runsChecked Column.runsIn
    cases validity : stored.validity with
    | none => exact dense_runs_checked_eq addressed.1 offset length
    | some bits => exact bits.set_runs_checked_eq (addressed.2 bits validity) offset length
  | array values => exact dense_runs_checked_eq addressed offset length
  | options slots => exact Run.scan_checked_eq _ addressed offset length
  | host values lawful => rfl
  | reference target ih => exact ih addressed offset length
  | window below windowOffset windowLength ih =>
    have belowAddressed : below.Addressed last := addressed
    have inMemory := belowAddressed.length_le
    let window := below.toSequence.window windowOffset windowLength
    have inside : window.offset + window.length ≤ below.toSequence.length := window.inside
    let start := min offset window.length
    let span := min length (window.length - start)
    have first : positionUpTo last (window.offset + start) = some (window.offset + start) :=
      position_eq_some (by omega)
    have later : ∀ run ∈ below.toSequence.runsIn (window.offset + start) span,
        window.offset ≤ run.start := by
      intro run found
      rw [below.to_sequence_lawful.runs_scan] at found
      have bounds := Run.scan_bounds (by omega) found
      omega
    change ((positionUpTo last (window.offset + start)).bind fun first =>
      (below.runsChecked last first span).bind _) = some (window.runsIn offset length)
    rw [first, Option.bind_some, ih belowAddressed, Option.bind_some]
    exact Run.shift_down_checked_eq later

/-- No null and no run is misplaced, whatever a sequence stands on. The walk over a window reports
the maximal runs that the search slot by slot finds. So do both in the positions of a machine, also
where the end of the window is past the last one. A window has the options of its part of the
sequence, a window of a window is one window, and enough consecutive windows make up the whole. The
nulls counted while a column is built are those of the column. -/
theorem provided_sequences_lawful (backing : Backing ε) :
    let values := backing.toSequence
    (∀ index, values.length ≤ index → values.isValid index = false) ∧
      values.nullCount = (List.range values.length).countP (fun index => !values.isValid index) ∧
      (∀ offset length,
        let stop := min (offset + length) values.length
        values.runsIn offset length = Run.scan values.isValid offset stop ∧
          Run.AscendingMaximal values.isValid offset stop (values.runsIn offset length) ∧
          (∀ last, values.length ≤ last →
            Run.scanChecked last values.isValid values.length offset length =
              some (values.runsIn offset length)) ∧
          ∀ last, backing.Addressed last →
            backing.runsChecked last offset length = some (values.runsIn offset length)) ∧
      (∀ offset length,
        (values.slice offset length).toOptions =
          (values.toOptions.drop (min offset values.length)).take length) ∧
      (∀ offset length innerOffset innerLength,
        let outer := values.slice offset length
        let inner := outer.slice innerOffset innerLength
        inner = values.slice (min offset values.length + min innerOffset outer.length)
          inner.length) ∧
      (∀ width count, values.length ≤ count * width →
        let windows := (List.range count).map fun window => values.slice (window * width) width
        windows.flatMap Sequence.toOptions = values.toOptions ∧
          (windows.map Sequence.nullCount).sum = values.nullCount) ∧
      ∀ steps : List (ColumnBuilder.Step ε),
        (ColumnBuilder.ofSteps steps).finish.nullCount = ColumnBuilder.nullsOfSteps steps ∧
          (ColumnBuilder.ofSteps steps).finish.toOptions =
            steps.flatMap ColumnBuilder.Step.slots := by
  intro values
  have lawful : values.Lawful := backing.to_sequence_lawful
  refine ⟨fun index past => lawful.null_past_end past, lawful.null_count, ?_, ?_, ?_, ?_, ?_⟩
  · intro offset length stop
    have walked : values.runsIn offset length = Run.scan values.isValid offset stop :=
      lawful.runs_scan offset length
    refine ⟨walked, ?_, ?_, ?_⟩
    · rw [walked]
      exact Run.scan_maximal values.isValid offset stop
    · intro last inMemory
      rw [walked]
      exact Run.scan_checked_eq values.isValid inMemory offset length
    · exact fun last addressed => backing.runs_checked_eq addressed offset length
  · exact fun offset length => values.slice_to_options offset length
  · exact fun offset length innerOffset innerLength =>
      Sequence.slice_slice lawful offset length innerOffset innerLength
  · intro width count covered windows
    refine ⟨?_, ?_⟩
    · rw [List.flatMap_map]
      exact values.windows_to_options covered
    · rw [List.map_map]
      exact Sequence.windows_null_count lawful covered
  · exact fun steps =>
      ⟨ColumnBuilder.of_steps_null_count steps, ColumnBuilder.of_steps_to_options steps⟩

end Comoment
