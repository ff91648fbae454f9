import Comoment.Partition
import Comoment.Proofs.Registers
import Mathlib.Data.List.Forall2

/-!
Reductions of chunks. A reduction is a tree whose leaves are chunks and states without chunks, and
whose joins merge. It may be carried out by several workers at once, so that when chunks on both
sides of a join are refused it ends with the refusal of either.
-/

namespace Comoment

inductive Reduction (ι : Type) where
  | neutral
  | item (value : ι)
  | join (first second : Reduction ι)

namespace Reduction

variable {ι : Type}

def items : Reduction ι → List ι
  | neutral => []
  | item value => [value]
  | join first second => first.items ++ second.items

def chain (items : List ι) : Reduction ι :=
  items.foldl (fun tree value => tree.join (.item value)) .neutral

def halves (items : List ι) : Reduction ι :=
  if items.length < 2 then chain items
  else
    let half := items.length / 2
    (chain (items.take half)).join (chain (items.drop half))

theorem chain_items (items : List ι) : (chain items).items = items := by
  have grown : ∀ tree : Reduction ι,
      (items.foldl (fun tree value => tree.join (.item value)) tree).items =
        tree.items ++ items := by
    induction items with
    | nil =>
      intro tree
      exact (List.append_nil tree.items).symm
    | cons value items ih =>
      intro tree
      rw [List.foldl_cons, ih]
      exact List.append_assoc tree.items [value] items
  exact grown .neutral

theorem halves_items (items : List ι) : (halves items).items = items := by
  unfold halves
  split
  · exact chain_items items
  · simp only [Reduction.items, chain_items]
    exact List.take_append_drop _ items

end Reduction

section Traversal

variable {ι σ : Type} {step : ι → Except Error σ}

theorem map_m_ok {items : List ι} {states : List σ} (ended : items.mapM step = .ok states) :
    List.Forall₂ (fun item state => step item = .ok state) items states := by
  induction items generalizing states with
  | nil =>
    rw [List.mapM_nil] at ended
    cases ended
    exact .nil
  | cons item items ih =>
    rw [List.mapM_cons] at ended
    cases first : step item with
    | error refusal => simp [first, bind, Except.bind] at ended
    | ok state =>
      cases rest : items.mapM step with
      | error refusal => simp [first, rest, bind, Except.bind] at ended
      | ok later =>
        simp only [first, rest, bind, Except.bind, pure, Except.pure, Except.ok.injEq] at ended
        rw [← ended]
        exact .cons first (ih rest)

theorem map_m_error {items : List ι} {refusal : Error} (ended : items.mapM step = .error refusal) :
    ∃ item ∈ items, step item = .error refusal := by
  induction items with
  | nil =>
    rw [List.mapM_nil] at ended
    cases ended
  | cons item items ih =>
    rw [List.mapM_cons] at ended
    cases first : step item with
    | error cause =>
      simp only [first, bind, Except.bind, Except.error.injEq] at ended
      exact ⟨item, List.mem_cons_self, ended ▸ first⟩
    | ok state =>
      cases rest : items.mapM step with
      | error cause =>
        simp only [first, rest, bind, Except.bind, Except.error.injEq] at ended
        obtain ⟨later, found, refused⟩ := ih (ended ▸ rest)
        exact ⟨later, List.mem_cons_of_mem item found, refused⟩
      | ok states => simp [first, rest, bind, Except.bind, pure, Except.pure] at ended

theorem map_m_first {before : List ι} {item : ι} {refusal : Error} (after : List ι)
    (absorbed : ∀ earlier ∈ before, ∃ state, step earlier = .ok state)
    (refused : step item = .error refusal) :
    (before ++ item :: after).mapM step = .error refusal := by
  induction before with
  | nil =>
    rw [List.nil_append, List.mapM_cons, refused]
    rfl
  | cons earlier before ih =>
    obtain ⟨state, consumed⟩ := absorbed earlier List.mem_cons_self
    rw [List.cons_append, List.mapM_cons, consumed,
      ih fun other found => absorbed other (List.mem_cons_of_mem earlier found)]
    rfl

end Traversal

namespace Machine

variable {ε σ : Type}

/-- What a reduction may end with, when every chunk is absorbed by a state of its own. -/
inductive Reduces (machine : Machine ε σ) (options : VarianceOptions) :
    Reduction (Chunk ε) → Except Error σ → Prop where
  | neutral : Reduces machine options .neutral (.ok (machine.empty options 0))
  | item (chunk : Chunk ε) :
    Reduces machine options (.item chunk) (machine.consume (machine.empty options 0) chunk)
  | join {first second : Reduction (Chunk ε)} {state other : σ} :
    Reduces machine options first (.ok state) → Reduces machine options second (.ok other) →
      Reduces machine options (first.join second) (.ok (machine.merge state other))
  | failFirst {first : Reduction (Chunk ε)} {refusal : Error} (second : Reduction (Chunk ε)) :
    Reduces machine options first (.error refusal) →
      Reduces machine options (first.join second) (.error refusal)
  | failSecond {second : Reduction (Chunk ε)} {refusal : Error} (first : Reduction (Chunk ε)) :
    Reduces machine options second (.error refusal) →
      Reduces machine options (first.join second) (.error refusal)

def reduceHalves (machine : Machine ε σ) (options : VarianceOptions) (chunks : List (Chunk ε)) :
    Except Error σ := do
  let states ← chunks.mapM fun chunk => machine.consume (machine.empty options 0) chunk
  return joinHalves (machine.empty options 0) machine.merge states

variable (machine : Machine ε σ) (options : VarianceOptions)

theorem reduces_total (tree : Reduction (Chunk ε)) :
    ∃ outcome, machine.Reduces options tree outcome := by
  induction tree with
  | neutral => exact ⟨_, .neutral⟩
  | item chunk => exact ⟨_, .item chunk⟩
  | join first second firstEnds secondEnds =>
    obtain ⟨outcome, ends⟩ := firstEnds
    obtain ⟨otherOutcome, otherEnds⟩ := secondEnds
    cases outcome with
    | error refusal => exact ⟨_, .failFirst second ends⟩
    | ok state =>
      cases otherOutcome with
      | error refusal => exact ⟨_, .failSecond first otherEnds⟩
      | ok other => exact ⟨_, .join ends otherEnds⟩

theorem reduces_refusal {tree : Reduction (Chunk ε)} {chunk : Chunk ε} {refusal : Error}
    (found : chunk ∈ tree.items)
    (refused : machine.consume (machine.empty options 0) chunk = .error refusal) :
    machine.Reduces options tree (.error refusal) := by
  induction tree with
  | neutral => simp [Reduction.items] at found
  | item value =>
    rw [List.mem_singleton.mp found] at refused
    rw [← refused]
    exact .item value
  | join first second firstEnds secondEnds =>
    rcases List.mem_append.mp found with inFirst | inSecond
    · exact .failFirst second (firstEnds inFirst)
    · exact .failSecond first (secondEnds inSecond)

variable {machine options}

theorem reduces_chain {chunks : List (Chunk ε)} {states : List σ}
    (absorbed : List.Forall₂
      (fun chunk state => machine.consume (machine.empty options 0) chunk = .ok state)
      chunks states) :
    machine.Reduces options (.chain chunks)
      (.ok (joinAll (machine.empty options 0) machine.merge states)) := by
  have grown : ∀ (tree : Reduction (Chunk ε)) (state : σ),
      machine.Reduces options tree (.ok state) →
      machine.Reduces options (chunks.foldl (fun tree chunk => tree.join (.item chunk)) tree)
        (.ok (states.foldl machine.merge state)) := by
    induction absorbed with
    | nil =>
      intro tree state ends
      exact ends
    | @cons chunk next chunks states consumed _ ih =>
      intro tree state ends
      have leaf : machine.Reduces options (.item chunk) (.ok next) := by
        rw [← consumed]
        exact .item chunk
      exact ih _ _ (.join ends leaf)
  exact grown .neutral _ .neutral

/-- What a single worker computes is what the reduction of the two halves ends with. -/
theorem reduces_halves (machine : Machine ε σ) (options : VarianceOptions)
    (chunks : List (Chunk ε)) :
    machine.Reduces options (.halves chunks) (machine.reduceHalves options chunks) := by
  unfold reduceHalves
  cases ended : chunks.mapM fun chunk => machine.consume (machine.empty options 0) chunk with
  | error refusal =>
    -- the refusal that ends the traversal is one that the tree may end with
    obtain ⟨chunk, found, refused⟩ := map_m_error ended
    rw [← Reduction.halves_items chunks] at found
    exact reduces_refusal machine options found refused
  | ok states =>
    have absorbed := map_m_ok ended
    change machine.Reduces options (.halves chunks) (.ok (joinHalves _ _ states))
    unfold Reduction.halves joinHalves
    rw [absorbed.length_eq]
    split
    · exact reduces_chain absorbed
    · exact .join (reduces_chain (List.forall₂_take _ absorbed))
        (reduces_chain (List.forall₂_drop _ absorbed))

end Machine

end Comoment
