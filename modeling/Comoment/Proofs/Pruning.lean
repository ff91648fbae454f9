import Comoment.Proofs.Reduction

/-!
Trees of merges with items left out. Where a state that reads like the empty one leaves what it is
merged with as it reads, items with such states may be taken from a tree, and its root reads the
same.
-/

namespace Comoment

variable {ι σ β : Type}

namespace Reduction

def eval (empty : σ) (merge : σ → σ → σ) (state : ι → σ) : Reduction ι → σ
  | neutral => empty
  | item value => state value
  | join first second => merge (first.eval empty merge state) (second.eval empty merge state)

/-- The join of what is left of two trees; one that is left alone takes its place. -/
def joinKept : Reduction ι → Reduction ι → Reduction ι
  | neutral, second => second
  | first, neutral => first
  | first, second => first.join second

def prune (keep : ι → Bool) : Reduction ι → Reduction ι
  | neutral => neutral
  | item value => if keep value then item value else neutral
  | join first second => (first.prune keep).joinKept (second.prune keep)

theorem join_kept_items (first second : Reduction ι) :
    (first.joinKept second).items = first.items ++ second.items := by
  cases first with
  | neutral => rfl
  | item value => cases second <;> rfl
  | join => cases second <;> simp [joinKept, items]

theorem prune_items (keep : ι → Bool) (tree : Reduction ι) :
    (tree.prune keep).items = tree.items.filter keep := by
  induction tree with
  | neutral => rfl
  | item value =>
    unfold prune
    cases kept : keep value <;> simp [items, kept]
  | join first second firstKept secondKept =>
    rw [prune, join_kept_items, firstKept, secondKept, items, List.filter_append]

theorem prune_eq_neutral {keep : ι → Bool} {tree : Reduction ι}
    (unkept : ∀ value ∈ tree.items, keep value = false) : tree.prune keep = neutral := by
  induction tree with
  | neutral => rfl
  | item value =>
    rw [prune, unkept value (List.mem_singleton_self value)]
    rfl
  | join first second firstLost secondLost =>
    rw [prune, firstLost fun value found => unkept value (List.mem_append_left _ found),
      secondLost fun value found => unkept value (List.mem_append_right _ found)]
    rfl

section Eval

variable {empty : σ} {merge : σ → σ → σ} {state : ι → σ}

theorem eval_holds {Holds : σ → Prop} (emptyHolds : Holds empty)
    (mergeHolds : ∀ first second, Holds first → Holds second → Holds (merge first second))
    {tree : Reduction ι} (leaves : ∀ value ∈ tree.items, Holds (state value)) :
    Holds (tree.eval empty merge state) := by
  induction tree with
  | neutral => exact emptyHolds
  | item value => exact leaves value (List.mem_singleton_self value)
  | join first second firstHolds secondHolds =>
    exact mergeHolds _ _ (firstHolds fun value found => leaves value (List.mem_append_left _ found))
      (secondHolds fun value found => leaves value (List.mem_append_right _ found))

/-- A reading of states that merging determines, and that states which read like the empty one
leave as it is. -/
structure Reads (empty : σ) (merge : σ → σ → σ) (Sound : σ → Prop) (read : σ → β) : Prop where
  empty_sound : Sound empty
  merge_sound : ∀ first second, Sound first → Sound second → Sound (merge first second)
  congr : ∀ {first first' second second'}, read first = read first' → read second = read second' →
    read (merge first second) = read (merge first' second')
  empty_merge : ∀ state, Sound state → read (merge empty state) = read state
  merge_empty : ∀ state, read (merge state empty) = read state

variable {Sound : σ → Prop} {read : σ → β} (reads : Reads empty merge Sound read)

include reads

theorem Reads.eval_join_kept {first second : Reduction ι}
    (sound : Sound (second.eval empty merge state)) :
    read ((first.joinKept second).eval empty merge state) =
      read (merge (first.eval empty merge state) (second.eval empty merge state)) := by
  cases first with
  | neutral => exact (reads.empty_merge _ sound).symm
  | item value =>
    cases second with
    | neutral => exact (reads.merge_empty _).symm
    | item | join => rfl
  | join =>
    cases second with
    | neutral => exact (reads.merge_empty _).symm
    | item | join => rfl

theorem Reads.eval_prune {keep : ι → Bool} {tree : Reduction ι}
    (sound : ∀ value ∈ tree.items, Sound (state value))
    (blank : ∀ value ∈ tree.items, keep value = false → read (state value) = read empty) :
    read (tree.eval empty merge state) = read ((tree.prune keep).eval empty merge state) := by
  induction tree with
  | neutral => rfl
  | item value =>
    have found : value ∈ (item value).items := List.mem_singleton_self value
    rw [prune]
    split
    · rfl
    · rename_i unkept
      exact blank value found (by simpa using unkept)
  | join first second firstPruned secondPruned =>
    have inFirst : ∀ value ∈ first.items, value ∈ (first.join second).items :=
      fun value found => List.mem_append_left _ found
    have inSecond : ∀ value ∈ second.items, value ∈ (first.join second).items :=
      fun value found => List.mem_append_right _ found
    have kept : Sound ((second.prune keep).eval empty merge state) := by
      apply eval_holds reads.empty_sound reads.merge_sound
      intro value found
      rw [prune_items] at found
      exact sound value (inSecond value (List.mem_of_mem_filter found))
    rw [prune, reads.eval_join_kept kept]
    exact reads.congr
      (firstPruned (fun value found => sound value (inFirst value found))
        fun value found => blank value (inFirst value found))
      (secondPruned (fun value found => sound value (inSecond value found))
        fun value found => blank value (inSecond value found))

end Eval

end Reduction

end Comoment
