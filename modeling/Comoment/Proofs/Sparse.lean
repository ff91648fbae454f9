import Comoment.Proofs.Windows
import Comoment.Sequence.Sparse

/-!
Sparse sequences are lawful when their segments are separated. Clipping the segments to a window
then gives the maximal runs that the search slot by slot finds, with a gap after every segment to
end its run.
-/

namespace Comoment

variable {ε : Type}

namespace Segment

theorem find_is_some (segment : Segment ε) (index : Nat) :
    (segment.find? index).isSome = true ↔ segment.start ≤ index ∧ index < segment.stop := by
  have bound : segment.stop = segment.start + segment.values.size := rfl
  unfold find?
  split
  · rename_i lower
    simp only [isSome_getElem?]
    omega
  · rename_i earlier
    simp [earlier]

theorem clip_eq_none {segment : Segment ε} {start stop : Nat}
    (apart : min segment.stop stop ≤ max segment.start start) : segment.clip? start stop = none :=
  if_neg (Nat.not_lt.mpr apart)

theorem clip_eq_some {segment : Segment ε} {start stop : Nat}
    (overlap : max segment.start start < min segment.stop stop) :
    segment.clip? start stop =
      some ⟨max segment.start start, min segment.stop stop - max segment.start start⟩ :=
  if_pos overlap

end Segment

def covers (segments : List (Segment ε)) (index : Nat) : Bool :=
  segments.any fun segment => (segment.find? index).isSome

theorem covers_iff {segments : List (Segment ε)} {index : Nat} :
    covers segments index = true ↔
      ∃ segment ∈ segments, segment.start ≤ index ∧ index < segment.stop := by
  simp [covers, Segment.find_is_some]

theorem covers_cons_of_outside {segment : Segment ε} {index : Nat}
    (outside : ¬(segment.start ≤ index ∧ index < segment.stop)) (segments : List (Segment ε)) :
    covers (segment :: segments) index = covers segments index := by
  rw [Bool.eq_iff_iff, covers_iff, covers_iff, List.exists_mem_cons_iff]
  simp only [outside, false_or]

theorem clipped_eq_scan {segments : List (Segment ε)}
    (separated : segments.Pairwise fun first second => first.stop < second.start)
    (start stop : Nat) :
    segments.filterMap (fun segment => segment.clip? start stop) =
      Run.scan (covers segments) start stop := by
  induction segments generalizing start with
  | nil => exact (Run.scan_eq_nil fun _ _ _ => rfl).symm
  | cons segment segments ih =>
    obtain ⟨later, rest⟩ := List.pairwise_cons.mp separated
    by_cases overlap : max segment.start start < min segment.stop stop
    · -- the run of the segment, then the other segments, which begin after its end
      have unclipped : ∀ other ∈ segments,
          other.clip? start stop = other.clip? (min segment.stop stop) stop := by
        intro other found
        have gap := later other found
        have lower : max other.start start = max other.start (min segment.stop stop) := by omega
        rw [Segment.clip?, Segment.clip?, lower]
      have others : ∀ index, min segment.stop stop ≤ index → index < stop →
          covers (segment :: segments) index = covers segments index := by
        intro index low high
        exact covers_cons_of_outside (by omega) segments
      have gap : ∀ index, index ≤ segment.stop → covers segments index = false := by
        intro index low
        rw [Bool.eq_false_iff]
        intro covered
        obtain ⟨other, found, lower, _⟩ := covers_iff.mp covered
        have apart := later other found
        omega
      rw [List.filterMap_cons, Segment.clip_eq_some overlap, List.filterMap_congr unclipped,
        ih rest, ← Run.scan_congr others]
      symm
      apply Run.scan_eq_cons (by omega) overlap (by omega)
      · intro index low high
        rw [covers_cons_of_outside (by omega)]
        exact gap index (by omega)
      · intro index low high
        exact covers_iff.mpr ⟨segment, List.mem_cons_self, by omega, by omega⟩
      · intro inside
        rw [covers_cons_of_outside (by omega)]
        exact gap _ (by omega)
    · have others : ∀ index, start ≤ index → index < stop →
          covers (segment :: segments) index = covers segments index := by
        intro index low high
        exact covers_cons_of_outside (by omega) segments
      rw [List.filterMap_cons, Segment.clip_eq_none (Nat.not_lt.mp overlap), ih rest,
        Run.scan_congr others]

namespace SparseSequence

variable [Inhabited ε] {sparse : SparseSequence ε}

theorem is_valid_iff (index : Nat) :
    sparse.toSequence.isValid index = true ↔
      index < sparse.length ∧ covers sparse.segments index = true := by
  change (sparse.find? index).isSome = true ↔ _
  unfold find?
  split
  · rename_i inside
    simp only [inside, true_and, covers, List.isSome_findSome?]
  · rename_i past
    simp [past]

theorem Separated.runs_scan (separated : sparse.Separated) (offset length : Nat) :
    sparse.toSequence.runsIn offset length =
      Run.scan sparse.toSequence.isValid offset (min (offset + length) sparse.length) := by
  refine (clipped_eq_scan separated.1 offset _).trans (Run.scan_congr ?_)
  intro index _ upper
  have inside : index < sparse.length := by omega
  rw [Bool.eq_iff_iff, is_valid_iff]
  simp [inside]

theorem Separated.runs_whole (separated : sparse.Separated) :
    sparse.toSequence.runsIn 0 sparse.length = sparse.segments.map Segment.run := by
  have whole : ∀ segment ∈ sparse.segments,
      segment.clip? 0 (min (0 + sparse.length) sparse.length) = some segment.run := by
    intro segment found
    obtain ⟨nonempty, inside⟩ := separated.2 segment found
    have bound : segment.stop = segment.start + segment.values.size := rfl
    have lower : max segment.start 0 = segment.start := by omega
    have upper : min segment.stop (min (0 + sparse.length) sparse.length) = segment.stop := by omega
    rw [Segment.clip_eq_some (by omega), lower, upper]
    simp [Segment.run, bound]
  exact (List.filterMap_congr whole).trans (congrFun List.filterMap_eq_map _)

theorem Separated.lawful (separated : sparse.Separated) : sparse.toSequence.Lawful where
  valid_inside index valid := ((is_valid_iff index).mp valid).1
  valid_stored index valid := ⟨_, if_pos ((is_valid_iff index).mp valid).1⟩
  null_count := by
    have walked := separated.runs_scan 0 sparse.length
    rw [separated.runs_whole, Nat.zero_add, Nat.min_self] at walked
    have counted := List.length_eq_countP_add_countP
      (fun index => sparse.toSequence.isValid index) (l := List.range sparse.length)
    have values := Run.total_length_scan sparse.toSequence.isValid 0 sparse.length
    simp only [List.length_range, Bool.not_eq_true, Bool.decide_eq_false] at counted
    simp only [Nat.zero_add, Nat.sub_zero] at values
    change sparse.length - Run.totalLength (sparse.segments.map Segment.run) = _
    rw [walked, values]
    change _ = (List.range sparse.length).countP _
    omega
  runs_scan := separated.runs_scan

end SparseSequence

end Comoment
