import Comoment.Proofs.Run

/-!
What the maximal runs of a window are, said without the search: the runs of valid slots that no
slot of the window extends. The search reports all of them, in ascending order, with a null slot
after each.
-/

namespace Comoment.Run

/-- A run of valid slots of a window, which the window or a null slot ends on both sides. -/
structure Maximal (valid : Nat → Bool) (start stop : Nat) (run : Run) : Prop where
  nonempty : 0 < run.length
  lower : start ≤ run.start
  upper : run.stop ≤ stop
  values : ∀ index, run.start ≤ index → index < run.stop → valid index = true
  before : run.start = start ∨ valid (run.start - 1) = false
  after : run.stop = stop ∨ valid run.stop = false

structure AscendingMaximal (valid : Nat → Bool) (start stop : Nat) (runs : List Run) : Prop where
  ascending : runs.Pairwise fun first second => first.stop < second.start
  mem_iff : ∀ run, run ∈ runs ↔ Maximal valid start stop run

theorem Maximal.start_lt_stop {valid : Nat → Bool} {start stop : Nat} {run : Run}
    (maximal : Maximal valid start stop run) : run.start < run.stop := by
  have nonempty := maximal.nonempty
  simp only [Run.stop]
  omega

theorem Maximal.start_valid {valid : Nat → Bool} {start stop : Nat} {run : Run}
    (maximal : Maximal valid start stop run) : valid run.start = true :=
  maximal.values run.start (Nat.le_refl _) maximal.start_lt_stop

theorem not_maximal_empty {valid : Nat → Bool} {start stop : Nat} (reversed : stop ≤ start)
    (run : Run) : ¬Maximal valid start stop run := by
  intro maximal
  have ordered := maximal.start_lt_stop
  have lower := maximal.lower
  have upper := maximal.upper
  omega

theorem Maximal.shrink {valid : Nat → Bool} {start middle stop : Nat} {run : Run}
    (maximal : Maximal valid start stop run) (later : start < middle) (lower : middle ≤ run.start) :
    Maximal valid middle stop run := by
  refine { maximal with lower := lower, before := ?_ }
  rcases maximal.before with same | null
  · omega
  · exact .inr null

theorem Maximal.grow {valid : Nat → Bool} {start middle stop : Nat} {run : Run}
    (maximal : Maximal valid middle stop run) (earlier : start ≤ middle)
    (bounded : run.start = middle → valid (middle - 1) = false) : Maximal valid start stop run := by
  refine { maximal with lower := Nat.le_trans earlier maximal.lower, before := ?_ }
  rcases maximal.before with same | null
  · right
    rw [same]
    exact bounded same
  · exact .inr null

section Head

variable {valid : Nat → Bool} {start middle stop : Nat}
  (values : ∀ index, start ≤ index → index < middle → valid index = true)
  (ended : middle = stop ∨ valid middle = false)

include values ended

theorem Maximal.eq_head {run : Run} (inside : middle ≤ stop)
    (maximal : Maximal valid start stop run) (first : run.start < middle) :
    run = ⟨start, middle - start⟩ := by
  have lower := maximal.lower
  have atStart : run.start = start := by
    rcases maximal.before with same | null
    · exact same
    · by_cases same : run.start = start
      · exact same
      · have value := values (run.start - 1) (by omega) (by omega)
        simp [null] at value
  have notBefore : middle ≤ run.stop := by
    apply Nat.le_of_not_lt
    intro early
    have ordered := maximal.start_lt_stop
    rcases maximal.after with same | null
    · omega
    · have value := values run.stop (by omega) early
      simp [null] at value
  have notAfter : run.stop ≤ middle := by
    apply Nat.le_of_not_lt
    intro late
    have upper := maximal.upper
    rcases ended with same | null
    · omega
    · have value := maximal.values middle (Nat.le_of_lt first) late
      simp [null] at value
  obtain ⟨first, length⟩ := run
  simp only [Run.stop] at atStart notBefore notAfter
  subst atStart
  simp only [Run.mk.injEq, true_and]
  omega

theorem head_maximal (nonempty : start < middle) (inside : middle ≤ stop) :
    Maximal valid start stop ⟨start, middle - start⟩ := by
  have stopped : (⟨start, middle - start⟩ : Run).stop = middle := by
    simp only [Run.stop]
    omega
  refine ⟨Nat.sub_pos_of_lt nonempty, Nat.le_refl _, ?_, ?_, .inl rfl, ?_⟩
  · rw [stopped]
    exact inside
  · rw [stopped]
    exact values
  · rw [stopped]
    exact ended

/-- The first run of a window that begins with values ends at the first null, and the others are
the maximal runs from there on. -/
theorem maximal_head (nonempty : start < middle) (inside : middle ≤ stop) (run : Run) :
    Maximal valid start stop run ↔
      run = ⟨start, middle - start⟩ ∨ Maximal valid middle stop run := by
  constructor
  · intro maximal
    by_cases first : run.start < middle
    · exact .inl (maximal.eq_head values ended inside first)
    · exact .inr (maximal.shrink nonempty (Nat.le_of_not_lt first))
  · rintro (rfl | maximal)
    · exact head_maximal values ended nonempty inside
    · apply maximal.grow (Nat.le_of_lt nonempty)
      intro same
      -- no run begins where the first one ends: there is a null, or the window is over
      rcases ended with atEnd | null
      · subst atEnd
        exact absurd maximal (not_maximal_empty (Nat.le_refl _) run)
      · have value := maximal.start_valid
        simp [same, null] at value

end Head

theorem maximal_skip {valid : Nat → Bool} {start stop : Nat} (null : valid start = false)
    (run : Run) : Maximal valid start stop run ↔ Maximal valid (start + 1) stop run := by
  constructor
  · intro maximal
    have value := maximal.start_valid
    have lower := maximal.lower
    have later : run.start ≠ start := by
      intro same
      simp [same, null] at value
    exact maximal.shrink (Nat.lt_succ_self start) (by omega)
  · intro maximal
    exact maximal.grow (Nat.le_succ start) fun _ => null

theorem AscendingMaximal.skip {valid : Nat → Bool} {start stop : Nat} {runs : List Run}
    (null : valid start = false) (all : AscendingMaximal valid (start + 1) stop runs) :
    AscendingMaximal valid start stop runs where
  ascending := all.ascending
  mem_iff run := by rw [all.mem_iff, ← maximal_skip null]

theorem AscendingMaximal.cons {valid : Nat → Bool} {start middle stop : Nat} {runs : List Run}
    (nonempty : start < middle) (inside : middle < stop)
    (values : ∀ index, start ≤ index → index < middle → valid index = true)
    (null : valid middle = false) (all : AscendingMaximal valid (middle + 1) stop runs) :
    AscendingMaximal valid start stop (⟨start, middle - start⟩ :: runs) where
  ascending := by
    rw [List.pairwise_cons]
    refine ⟨?_, all.ascending⟩
    intro later found
    have lower := ((all.mem_iff later).mp found).lower
    simp only [Run.stop]
    omega
  mem_iff run := by
    rw [List.mem_cons, all.mem_iff, ← maximal_skip null,
      maximal_head values (.inr null) nonempty (Nat.le_of_lt inside)]

/-- Invariant of the search: the slots of the open run are valid, and what the search goes on to
report are the maximal runs of the window that begins with that run. -/
theorem scan_from_maximal (valid : Nat → Bool) (opened : Option Nat) (position remaining : Nat)
    (before : ∀ start, opened = some start → start < position)
    (values : ∀ index, opened.getD position ≤ index → index < position → valid index = true) :
    AscendingMaximal valid (opened.getD position) (position + remaining)
      (scanFrom valid opened position remaining) := by
  induction remaining generalizing opened position with
  | zero =>
    cases opened with
    | none =>
      refine ⟨List.Pairwise.nil, fun run => ?_⟩
      simp [scanFrom, not_maximal_empty]
    | some start =>
      have held : ∀ index, start ≤ index → index < position → valid index = true := values
      refine ⟨List.pairwise_singleton _ _, fun run => ?_⟩
      rw [scanFrom, List.mem_singleton, Option.getD_some, Nat.add_zero,
        maximal_head held (.inl rfl) (before start rfl) (Nat.le_refl _)]
      simp [not_maximal_empty]
  | succ remaining ih =>
    have window : position + (remaining + 1) = position + 1 + remaining := by omega
    rw [window]
    -- a null closes the run that is open, a value extends it or opens one
    cases value : valid position with
    | false =>
      have rest := ih none (position + 1) (by simp) (by simp; omega)
      rw [Option.getD_none] at rest
      cases opened with
      | none => simpa [scanFrom, value] using rest.skip value
      | some start =>
        have closed := AscendingMaximal.cons (before start rfl) (by omega) values value rest
        simpa [scanFrom, value] using closed
    | true =>
      cases opened with
      | none =>
        have rest := ih (some position) (position + 1) (by simp) (by
          intro index lower upper
          have same : index = position := by simp at lower; omega
          rw [same, value])
        simpa [scanFrom, value] using rest
      | some start =>
        have ordered := before start rfl
        have rest := ih (some start) (position + 1) (by simp; omega) (by
          intro index lower upper
          by_cases here : index = position
          · rw [here, value]
          · exact values index lower (by omega))
        simpa [scanFrom, value] using rest

theorem scan_maximal (valid : Nat → Bool) (start stop : Nat) :
    AscendingMaximal valid start stop (scan valid start stop) := by
  by_cases ordered : start ≤ stop
  · have searched := scan_from_maximal valid none start (stop - start) (by simp) (by simp; omega)
    have last : start + (stop - start) = stop := by omega
    rwa [Option.getD_none, last] at searched
  · have reversed : stop ≤ start := by omega
    rw [scan_empty_window valid reversed]
    exact ⟨List.Pairwise.nil, fun run => by simp [not_maximal_empty reversed]⟩

end Comoment.Run
