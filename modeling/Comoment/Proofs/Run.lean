import Comoment.Run

/-!
The search for maximal runs, seen through its slots. The runs it finds lie in the window, are not
empty, and cover the valid slots of the window in ascending order. The search depends on the window
alone, falls apart at a null slot, and inside the runs of another search finds the common runs.
-/

namespace Comoment.Run

theorem total_length_eq (runs : List Run) : totalLength runs = (runs.flatMap slots).length := by
  induction runs with
  | nil => rfl
  | cons run runs ih =>
    have step : totalLength (run :: runs) = run.length + totalLength runs := rfl
    rw [step, ih]
    simp [slots]

/-- The slots of the run that is still open when the search stands at `position`. -/
def openSlots (position : Nat) : Option Nat → List Nat
  | none => []
  | some start => List.range' start (position - start)

theorem slots_scan_from (valid : Nat → Bool) (opened : Option Nat) (position remaining : Nat)
    (before : ∀ start, opened = some start → start ≤ position) :
    (scanFrom valid opened position remaining).flatMap slots =
      openSlots position opened ++ (List.range' position remaining).filter valid := by
  induction remaining generalizing opened position with
  | zero => cases opened <;> simp [scanFrom, openSlots, slots]
  | succ remaining ih =>
    rw [List.range'_succ]
    cases value : valid position with
    | false =>
      have rest := ih none (position + 1) (by simp)
      cases opened with
      | none => simpa [scanFrom, value, openSlots] using rest
      | some start => simpa [scanFrom, value, openSlots, slots] using rest
    | true =>
      cases opened with
      | none =>
        have rest := ih (some position) (position + 1) (by simp)
        simpa [scanFrom, value, openSlots] using rest
      | some start =>
        have ordered := before start rfl
        have longer : position + 1 - start = (position - start) + 1 := by omega
        have last : start + (position - start) = position := by omega
        have rest := ih (some start) (position + 1) (by simp; omega)
        simpa [scanFrom, value, openSlots, longer, List.range'_concat, last] using rest

theorem slots_scan (valid : Nat → Bool) (start stop : Nat) :
    (scan valid start stop).flatMap slots =
      (List.range' start (stop - start)).filter valid := by
  exact slots_scan_from valid none start (stop - start) (by simp)

theorem scan_from_bounds {valid : Nat → Bool} (opened : Option Nat) (position remaining : Nat)
    (before : ∀ start, opened = some start → start < position) {run : Run}
    (found : run ∈ scanFrom valid opened position remaining) :
    opened.getD position ≤ run.start ∧ 0 < run.length ∧ run.stop ≤ position + remaining := by
  induction remaining generalizing opened position with
  | zero =>
    cases opened with
    | none => simp [scanFrom] at found
    | some start =>
      have ordered := before start rfl
      simp only [scanFrom, List.mem_singleton] at found
      subst found
      simp only [Option.getD_some, stop]
      omega
  | succ remaining ih =>
    cases value : valid position with
    | false =>
      have tail : run ∈ scanFrom valid none (position + 1) remaining →
          position + 1 ≤ run.start ∧ 0 < run.length ∧
            run.stop ≤ position + 1 + remaining :=
        ih none (position + 1) (by simp)
      cases opened with
      | none =>
        have bounds := tail (by simpa [scanFrom, value] using found)
        simp only [Option.getD_none]
        omega
      | some start =>
        have ordered := before start rfl
        simp only [scanFrom, value, List.mem_cons] at found
        simp only [Option.getD_some]
        rcases found with rfl | later
        · simp only [stop]
          omega
        · have bounds := tail later
          omega
    | true =>
      cases opened with
      | none =>
        have bounds := ih (some position) (position + 1) (by simp)
          (by simpa [scanFrom, value] using found)
        simp only [Option.getD_some] at bounds
        simp only [Option.getD_none]
        omega
      | some start =>
        have ordered := before start rfl
        have bounds := ih (some start) (position + 1) (by simp; omega)
          (by simpa [scanFrom, value] using found)
        simp only [Option.getD_some] at bounds ⊢
        omega

theorem scan_bounds {valid : Nat → Bool} {start stop : Nat} (ordered : start ≤ stop) {run : Run}
    (found : run ∈ scan valid start stop) :
    start ≤ run.start ∧ 0 < run.length ∧ run.stop ≤ stop := by
  have bounds := scan_from_bounds none start (stop - start) (by simp) found
  simp only [Option.getD_none] at bounds
  omega

theorem scan_empty_window (valid : Nat → Bool) {start stop : Nat} (reversed : stop ≤ start) :
    scan valid start stop = [] := by
  apply scan_eq_nil
  intro index lower upper
  omega

theorem scan_from_congr {first second : Nat → Bool} (opened : Option Nat)
    (position remaining : Nat)
    (same : ∀ index, position ≤ index → index < position + remaining →
      first index = second index) :
    scanFrom first opened position remaining = scanFrom second opened position remaining := by
  induction remaining generalizing opened position with
  | zero => rfl
  | succ remaining ih =>
    have here := same position (Nat.le_refl _) (by omega)
    have rest := fun opened => ih opened (position + 1) fun index lower upper =>
      same index (by omega) (by omega)
    simp only [scanFrom, here, rest]

theorem scan_congr {first second : Nat → Bool} {start stop : Nat}
    (same : ∀ index, start ≤ index → index < stop → first index = second index) :
    scan first start stop = scan second start stop := by
  apply scan_from_congr
  intro index lower upper
  exact same index lower (by omega)

theorem scan_from_append (valid : Nat → Bool) (opened : Option Nat)
    (position count remaining : Nat) (null : valid (position + count) = false) :
    scanFrom valid opened position (count + remaining) =
      scanFrom valid opened position count ++
        scanFrom valid none (position + count) remaining := by
  induction count generalizing opened position with
  | zero =>
    have here : valid position = false := null
    cases opened with
    | none => simp [scanFrom]
    | some start => cases remaining <;> simp [scanFrom, here]
  | succ count ih =>
    have step : count + 1 + remaining = (count + remaining) + 1 := by omega
    have next : position + (count + 1) = position + 1 + count := by omega
    rw [next] at null ⊢
    have rest := fun opened => ih opened (position + 1) null
    rw [step]
    cases value : valid position <;> cases opened <;> simp [scanFrom, value, rest]

/-- No run reaches over a null slot. -/
theorem scan_append {valid : Nat → Bool} {start middle stop : Nat} (lower : start ≤ middle)
    (upper : middle ≤ stop) (null : valid middle = false) :
    scan valid start stop = scan valid start middle ++ scan valid middle stop := by
  have size : stop - start = (middle - start) + (stop - middle) := by omega
  have place : start + (middle - start) = middle := by omega
  have parts := scan_from_append valid none start (middle - start) (stop - middle)
    (by rw [place, null])
  rw [place] at parts
  rw [scan, size, parts, scan, scan]

theorem scan_skip {valid : Nat → Bool} {start stop : Nat} (null : valid start = false) :
    scan valid start stop = scan valid (start + 1) stop := by
  by_cases inside : start < stop
  · have size : stop - start = 1 + (stop - (start + 1)) := by omega
    rw [scan, size, scan_from_skip start 1 _ fun index lower upper => by
      have same : index = start := by omega
      rw [same, null]]
    rfl
  · rw [scan_empty_window valid (by omega), scan_empty_window valid (by omega)]

/-- Invariant of the search inside the runs of `outer`: the slots of the open run are valid in
`outer`, so the common runs among them are those of `inner` alone. -/
theorem flat_map_scan_from (outer inner : Nat → Bool) (opened : Option Nat)
    (position remaining : Nat) (before : ∀ start, opened = some start → start ≤ position)
    (values : ∀ index, opened.getD position ≤ index → index < position → outer index = true) :
    (scanFrom outer opened position remaining).flatMap
        (fun run => scan inner run.start run.stop) =
      scan (fun index => outer index && inner index) (opened.getD position)
        (position + remaining) := by
  induction remaining generalizing opened position with
  | zero =>
    cases opened with
    | none => simp [scanFrom, scan_empty_window]
    | some start =>
      have ordered := before start rfl
      have last : start + (position - start) = position := by omega
      have closed : (⟨start, position - start⟩ : Run).stop = position := last
      simp only [scanFrom, List.flatMap_singleton, closed, Option.getD_some, Nat.add_zero]
      apply scan_congr
      intro index lower upper
      simp [values index lower upper]
  | succ remaining ih =>
    have window : position + (remaining + 1) = position + 1 + remaining := by omega
    rw [window]
    cases value : outer position with
    | false =>
      have null : (outer position && inner position) = false := by simp [value]
      have rest := ih none (position + 1) (by simp) (by simp; omega)
      rw [Option.getD_none, ← scan_skip null] at rest
      cases opened with
      | none => simpa [scanFrom, value] using rest
      | some start =>
        have ordered := before start rfl
        have last : start + (position - start) = position := by omega
        have ended : scan inner start position =
            scan (fun index => outer index && inner index) start position := by
          apply scan_congr
          intro index lower upper
          simp [values index lower upper]
        have closed : (⟨start, position - start⟩ : Run).stop = position := last
        simp only [scanFrom, value, List.flatMap_cons, closed, Option.getD_some]
        rw [rest, ended, ← scan_append ordered (by omega) null]
    | true =>
      cases opened with
      | none =>
        have rest := ih (some position) (position + 1) (by simp) (by
          intro index lower upper
          have same : index = position := by simp at lower; omega
          rw [same, value])
        simpa [scanFrom, value] using rest
      | some start =>
        have ordered := before start rfl
        have rest := ih (some start) (position + 1) (by simp; omega) (by
          intro index lower upper
          by_cases here : index = position
          · rw [here, value]
          · exact values index lower (by omega))
        simpa [scanFrom, value] using rest

/-- Searching again inside the runs of another search finds the runs that are valid for both. -/
theorem flat_map_scan (outer inner : Nat → Bool) (start stop : Nat) :
    (scan outer start stop).flatMap (fun run => scan inner run.start run.stop) =
      scan (fun index => outer index && inner index) start stop := by
  by_cases ordered : start ≤ stop
  · have common := flat_map_scan_from outer inner none start (stop - start) (by simp)
      (by simp; omega)
    have last : start + (stop - start) = stop := by omega
    rwa [Option.getD_none, last] at common
  · rw [scan_empty_window outer (by omega), scan_empty_window _ (by omega)]
    rfl

end Comoment.Run
