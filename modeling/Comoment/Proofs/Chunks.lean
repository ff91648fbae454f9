import Comoment.Moments.Exact
import Comoment.Proofs.Pairing

/-!
The chunks of the exact accumulation. Its windows cut the slots into consecutive pieces, none
longer than the bound, so every paired slot is summed in one chunk and in one only.
-/

namespace Comoment

/-- The windows of the chunks from `start` on: `bound` slots each, or one when the bound is zero,
and what is left in the last. -/
def chunkWindows (bound start stop : Nat) : List Run :=
  if start < stop then
    let span := min (max bound 1) (stop - start)
    ⟨start, span⟩ :: chunkWindows bound (start + span) stop
  else []
termination_by stop - start

theorem chunk_windows_slots (bound start stop : Nat) :
    (chunkWindows bound start stop).flatMap Run.slots = List.range' start (stop - start) := by
  fun_induction chunkWindows bound start stop with
  | case1 start inside span ih =>
    have size : stop - start = span + (stop - (start + span)) := by omega
    rw [List.flatMap_cons, ih, size]
    exact List.range'_append_1
  | case2 start outside =>
    have size : stop - start = 0 := by omega
    rw [size]
    rfl

theorem chunk_windows_bounds {bound start stop : Nat} {window : Run}
    (found : window ∈ chunkWindows bound start stop) :
    window.length ≤ max bound 1 ∧ start ≤ window.start ∧ window.stop ≤ stop := by
  fun_induction chunkWindows bound start stop with
  | case1 start inside span ih =>
    rcases List.mem_cons.mp found with rfl | later
    · simp only [Run.stop]
      omega
    · have bounds := ih later
      omega
  | case2 => simp at found

variable {ε : Type}

theorem chunk_windows_paired {x y : Sequence ε} (xLawful : x.Lawful) (yLawful : y.Lawful)
    (bound : Nat) :
    (chunkWindows bound 0 (min x.length y.length)).flatMap
        (fun window => (pairedRunsIn x y window.start window.length).flatMap Run.slots) =
      (List.range (min x.length y.length)).filter (x.pairedAt y) := by
  have inside : ∀ window ∈ chunkWindows bound 0 (min x.length y.length),
      (pairedRunsIn x y window.start window.length).flatMap Run.slots =
        window.slots.filter (x.pairedAt y) := by
    intro window found
    have bounds := chunk_windows_bounds found
    have size : min (window.start + window.length) (min x.length y.length) - window.start =
        window.length := by
      have stop : window.start + window.length = window.stop := rfl
      omega
    rw [paired_runs_in_slots xLawful yLawful, size]
    rfl
  rw [List.flatMap_congr inside, List.range_eq_range']
  have slots := chunk_windows_slots bound 0 (min x.length y.length)
  rw [Nat.sub_zero] at slots
  rw [← slots, List.filter_flatMap]

namespace Moments

variable {α : Type} [Scalar α]

theorem merge_count (first second : Moments α) :
    (first.merge second).count = first.count + second.count := by
  unfold merge
  split
  · omega
  · split
    · omega
    · rfl

theorem of_sums_count (sums : ExactSums) : (sums.moments : Moments α).count = sums.count := by
  unfold ExactSums.moments
  split
  · rename_i none
    simp [none, Moments.empty]
  · rfl

variable [Inhabited ε]

def mergeWindow (toInt : ε → Int) (x y : Sequence ε) (moments : Moments α) (window : Run) :
    Moments α :=
  let chunk := ExactSums.ofRuns toInt x y (pairedRunsIn x y window.start window.length)
  if chunk.count = 0 then moments else moments.merge chunk.moments

theorem merge_chunks_eq_foldl (toInt : ε → Int) (bound : Nat) (x y : Sequence ε) (start : Nat)
    (moments : Moments α) :
    mergeChunks toInt bound x y start moments =
      (chunkWindows bound start (min x.length y.length)).foldl (mergeWindow toInt x y)
        moments := by
  fun_induction mergeChunks toInt bound x y start moments with
  | case1 start moments stop inside span chunk ih =>
    rw [chunkWindows, if_pos inside]
    exact ih
  | case2 start moments stop outside =>
    rw [chunkWindows, if_neg outside]
    rfl

/-- The exact accumulation runs over its windows from left to right. -/
theorem exact_eq_foldl (toInt : ε → Int) (bound : Nat) (x y : Sequence ε) :
    (exact toInt bound x y : Moments α) =
      (chunkWindows bound 0 (min x.length y.length)).foldl (mergeWindow toInt x y) empty :=
  merge_chunks_eq_foldl toInt bound x y 0 empty

/-- What holds before any chunk and after each chunk with its pairs added holds of all pairs in the
end. -/
theorem exact_induction (toInt : ε → Int) (bound : Nat) (x y : Sequence ε)
    {motive : Moments α → List (ε × ε) → Prop} (start : motive empty [])
    (step : ∀ moments pairs window, motive moments pairs →
      motive (mergeWindow toInt x y moments window)
        (pairs ++ window.slots.filterMap (x.pairAt? y))) :
    motive (exact toInt bound x y) (x.pairs y) := by
  have folded : ∀ (windows : List Run) (moments : Moments α) (pairs : List (ε × ε)),
      motive moments pairs →
        motive (windows.foldl (mergeWindow toInt x y) moments)
          (pairs ++ (windows.flatMap Run.slots).filterMap (x.pairAt? y)) := by
    intro windows
    induction windows with
    | nil =>
      intro moments pairs held
      simpa using held
    | cons window windows ih =>
      intro moments pairs held
      rw [List.foldl_cons, List.flatMap_cons, List.filterMap_append, ← List.append_assoc]
      exact ih _ _ (step moments pairs window held)
  have whole := folded (chunkWindows bound 0 (min x.length y.length)) empty [] start
  rw [chunk_windows_slots, Nat.sub_zero, ← List.range_eq_range', List.nil_append] at whole
  rw [exact_eq_foldl]
  exact whole

end Moments

end Comoment
