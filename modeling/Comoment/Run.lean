/-!
Runs of consecutive slots, and the slot by slot search for the maximal ones. The search is the
reference that every faster walk over a sequence agrees with.
-/

namespace Comoment

structure Run where
  start : Nat
  length : Nat
  deriving DecidableEq, Repr, Inhabited

namespace Run

def stop (run : Run) : Nat := run.start + run.length

def slots (run : Run) : List Nat := List.range' run.start run.length

def shiftDown (offset : Nat) (run : Run) : Run := { run with start := run.start - offset }

def totalLength (runs : List Run) : Nat :=
  runs.foldr (fun run total => run.length + total) 0

/-- Continues the search at `position` for `remaining` slots, with the start of the run that is
still open, if one is. -/
def scanFrom (valid : Nat → Bool) (opened : Option Nat) (position : Nat) : Nat → List Run
  | 0 =>
    match opened with
    | none => []
    | some start => [⟨start, position - start⟩]
  | remaining + 1 =>
    match valid position, opened with
    | true, none => scanFrom valid (some position) (position + 1) remaining
    | false, some start =>
        ⟨start, position - start⟩ :: scanFrom valid none (position + 1) remaining
    | _, opened => scanFrom valid opened (position + 1) remaining

/-- The maximal runs of valid slots among `start`, …, `stop - 1`. -/
def scan (valid : Nat → Bool) (start stop : Nat) : List Run :=
  scanFrom valid none start (stop - start)

theorem scan_from_skip {valid : Nat → Bool} (position count remaining : Nat)
    (nulls : ∀ index, position ≤ index → index < position + count → valid index = false) :
    scanFrom valid none position (count + remaining) =
      scanFrom valid none (position + count) remaining := by
  induction count generalizing position with
  | zero => simp
  | succ count ih =>
    have step : count + 1 + remaining = (count + remaining) + 1 := by omega
    have null := nulls position (by omega) (by omega)
    have next : position + (count + 1) = position + 1 + count := by omega
    rw [step, next, ← ih (position + 1) fun index lower upper => nulls index (by omega) (by omega)]
    simp [scanFrom, null]

theorem scan_from_extend {valid : Nat → Bool} (start position count remaining : Nat)
    (values : ∀ index, position ≤ index → index < position + count → valid index = true) :
    scanFrom valid (some start) position (count + remaining) =
      scanFrom valid (some start) (position + count) remaining := by
  induction count generalizing position with
  | zero => simp
  | succ count ih =>
    have step : count + 1 + remaining = (count + remaining) + 1 := by omega
    have value := values position (by omega) (by omega)
    have next : position + (count + 1) = position + 1 + count := by omega
    rw [step, next, ← ih (position + 1) fun index lower upper => values index (by omega) (by omega)]
    simp [scanFrom, value]

theorem scan_eq_nil {valid : Nat → Bool} {start stop : Nat}
    (nulls : ∀ index, start ≤ index → index < stop → valid index = false) :
    scan valid start stop = [] := by
  have skipped : scanFrom valid none start (stop - start + 0) = [] :=
    scan_from_skip start (stop - start) 0 fun index lower upper => nulls index lower (by omega)
  exact skipped

/-- The search finds the first valid slot, the first null after it, and goes on from there. -/
theorem scan_eq_cons {valid : Nat → Bool} {start first last stop : Nat}
    (lower : start ≤ first) (nonempty : first < last) (upper : last ≤ stop)
    (nulls : ∀ index, start ≤ index → index < first → valid index = false)
    (values : ∀ index, first ≤ index → index < last → valid index = true)
    (ended : last < stop → valid last = false) :
    scan valid start stop = ⟨first, last - first⟩ :: scan valid last stop := by
  have size : stop - start = (first - start) + (stop - first) := by omega
  have toFirst : start + (first - start) = first := by omega
  rw [scan, size, scan_from_skip _ _ _ fun index low high => nulls index low (by omega), toFirst]
  have opening : stop - first = (last - (first + 1)) + (stop - last) + 1 := by omega
  have value := values first (Nat.le_refl _) nonempty
  have opened : scanFrom valid none first (stop - first) =
      scanFrom valid (some first) (first + 1) ((last - (first + 1)) + (stop - last)) := by
    rw [opening]
    simp [scanFrom, value]
  have toLast : first + 1 + (last - (first + 1)) = last := by omega
  rw [opened, scan_from_extend _ _ _ _ fun index low high => values index (by omega) (by omega),
    toLast, scan]
  by_cases atEnd : last = stop
  · simp [atEnd, scanFrom]
  · have rest : stop - last = (stop - last - 1) + 1 := by omega
    have null := ended (by omega)
    rw [rest]
    simp [scanFrom, null]

end Run

end Comoment
