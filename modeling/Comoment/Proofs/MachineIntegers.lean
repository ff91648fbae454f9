import Comoment.Moments.Exact
import Comoment.Proofs.Chunks
import Mathlib.Algebra.Order.Ring.Int

/-!
The exact accumulation in machine integers. Every operation is repeated with a check that its
result fits: 64 bits for counts, sums and positions, 128 for products. For each narrow element
type, with chunks as long as its width allows, no check ever fails.
-/

namespace Comoment

/-- The value, if a signed integer of that many bits holds it. -/
def signed (bits : Nat) (value : Int) : Option Int :=
  if -2 ^ (bits - 1) ≤ value ∧ value < 2 ^ (bits - 1) then some value else none

def unsigned (bits : Nat) (value : Nat) : Option Nat :=
  if value < 2 ^ bits then some value else none

def dividedChecked (dividend divisor : Int) : Option (Int × Int) :=
  if divisor = 0 then none
  else do
    let quotient ← signed 128 (dividend.tdiv divisor)
    return (quotient, dividend.tmod divisor)

namespace ExactSums

def addChecked (sums : ExactSums) (x y : Int) : Option ExactSums := do
  let x ← signed 64 x
  let y ← signed 64 y
  let sumX ← signed 64 (sums.sumX + x)
  let sumY ← signed 64 (sums.sumY + y)
  let product ← signed 128 (x * y)
  let sumXY ← signed 128 (sums.sumXY + product)
  let count ← signed 64 (sums.count + 1)
  return ⟨count.toNat, sumX, sumY, sumXY⟩

variable {ε α : Type} [Inhabited ε] [Scalar α]

def addSlotChecked (toInt : ε → Int) (x y : Sequence ε) (sums : ExactSums) (index : Nat) :
    Option ExactSums :=
  sums.addChecked (toInt (x.value index)) (toInt (y.value index))

def addRunChecked (toInt : ε → Int) (x y : Sequence ε) (sums : ExactSums) (run : Run) :
    Option ExactSums := do
  let stop ← unsigned 64 (run.start + run.length)
  (List.range' run.start (stop - run.start)).foldlM (addSlotChecked toInt x y) sums

def ofRunsChecked (toInt : ε → Int) (x y : Sequence ε) (runs : List Run) : Option ExactSums :=
  runs.foldlM (addRunChecked toInt x y) empty

/-- The sum of centered products, in machine integers until the last three conversions. -/
def comomentChecked (sums : ExactSums) : Option α :=
  if sums.count = 0 then some 0
  else do
    let product ← signed 128 (sums.sumX * sums.sumY)
    let (quotient, remainder) ← dividedChecked product sums.count
    let difference ← signed 128 (sums.sumXY - quotient)
    return Scalar.ofInt difference - Scalar.ofInt remainder / Scalar.ofInt sums.count

def momentsChecked (sums : ExactSums) : Option (Moments α) :=
  if sums.count = 0 then some Moments.empty
  else do
    let comoment ← sums.comomentChecked
    return ⟨sums.count, sums.meanX, sums.meanY, comoment⟩

end ExactSums

namespace Moments

variable {ε α : Type} [Inhabited ε] [Scalar α]

def mergeChecked (first second : Moments α) : Option (Moments α) :=
  if second.count = 0 then some first
  else if first.count = 0 then some second
  else do
    let count ← signed 64 (first.count + second.count)
    return { first.merge second with count := count }

def mergeWindowChecked (toInt : ε → Int) (x y : Sequence ε) (moments : Moments α) (window : Run) :
    Option (Moments α) := do
  let chunk ← ExactSums.ofRunsChecked toInt x y (pairedRunsIn x y window.start window.length)
  if chunk.count = 0 then return moments
  else
    let chunkMoments ← chunk.momentsChecked
    moments.mergeChecked chunkMoments

def mergeChunksChecked (toInt : ε → Int) (bound : Nat) (x y : Sequence ε) (start : Nat)
    (moments : Moments α) : Option (Moments α) :=
  let stop := min x.length y.length
  if start < stop then do
    let span := min (max bound 1) (stop - start)
    let merged ← mergeWindowChecked toInt x y moments ⟨start, span⟩
    let _ ← unsigned 64 (start + span)
    mergeChunksChecked toInt bound x y (start + span) merged
  else some moments
termination_by min x.length y.length - start

def exactChecked (toInt : ε → Int) (bound : Nat) (x y : Sequence ε) : Option (Moments α) :=
  mergeChunksChecked toInt bound x y 0 empty

end Moments

def Element.momentsChecked {ε α : Type} [Element ε] [Scalar α] (x y : Sequence ε) :
    Option (Moments α) :=
  match Element.reading (ε := ε) with
  | .narrow bitWidth toInt _ _ => Moments.exactChecked toInt (chunkBound bitWidth) x y
  | .wide _ => none

theorem signed_eq_some {bits : Nat} {value : Int} (small : value.natAbs < 2 ^ (bits - 1)) :
    signed bits value = some value := by
  have magnitude : (value.natAbs : Int) < 2 ^ (bits - 1) := by exact_mod_cast small
  unfold signed
  rw [if_pos (by omega)]

theorem signed_eq_none {bits : Nat} {value : Int} (large : 2 ^ (bits - 1) ≤ value) :
    signed bits value = none := by
  unfold signed
  rw [if_neg (by omega)]

theorem signed_of_some {bits : Nat} {value result : Int} (fits : signed bits value = some result) :
    result = value := by
  unfold signed at fits
  split at fits
  · exact (Option.some.inj fits).symm
  · simp at fits

theorem signed_eq_some_iff {bits : Nat} {value : Int} :
    signed bits value = some value ↔ -2 ^ (bits - 1) ≤ value ∧ value < 2 ^ (bits - 1) := by
  unfold signed
  split
  · rename_i inside
    simp [inside]
  · rename_i outside
    simp [outside]

theorem unsigned_eq_some {bits value : Nat} (small : value < 2 ^ bits) :
    unsigned bits value = some value := by
  unfold unsigned
  rw [if_pos small]

/-- A checked loop never fails when each step succeeds on what the invariant leaves to do. -/
theorem foldl_m_eq_some {σ ι : Type} (checked : σ → ι → Option σ) (plain : σ → ι → σ)
    (invariant : List ι → σ → Prop)
    (step : ∀ item items state, invariant (item :: items) state →
      checked state item = some (plain state item) ∧ invariant items (plain state item))
    (items : List ι) (state : σ) (initial : invariant items state) :
    items.foldlM checked state = some (items.foldl plain state) ∧
      invariant [] (items.foldl plain state) := by
  induction items generalizing state with
  | nil => exact ⟨rfl, initial⟩
  | cons item items ih =>
    obtain ⟨succeeds, next⟩ := step item items state initial
    rw [List.foldlM_cons, succeeds, List.foldl_cons]
    exact ih (plain state item) next

/-- A number of pairs, with components at most `limit` in size, that one chunk can sum. -/
structure ChunkFits (limit count : Nat) : Prop where
  count_lt : count < 2 ^ 63
  sum_lt : count * limit < 2 ^ 63
  limit_lt : limit < 2 ^ 32

/-- The chunk bound of a width leaves room for the sums of that many integers of the width. -/
theorem chunk_fits {bitWidth count : Nat} (narrow : bitWidth ≤ 32)
    (bounded : count ≤ chunkBound bitWidth) (short : count < 2 ^ 63) :
    ChunkFits (2 ^ bitWidth - 1) count := by
  have positive : 0 < 2 ^ bitWidth := Nat.two_pow_pos bitWidth
  have widest : 2 ^ bitWidth ≤ 2 ^ 32 := Nat.pow_le_pow_right (by decide) narrow
  have whole : chunkBound bitWidth * 2 ^ bitWidth = 2 ^ 63 := by
    rw [chunkBound, Nat.shiftLeft_eq, Nat.one_mul, ← Nat.pow_add]
    congr 1
    omega
  refine ⟨short, ?_, by omega⟩
  rcases Nat.eq_zero_or_pos count with none | some
  · simp [none]
  · calc
      count * (2 ^ bitWidth - 1) < count * 2 ^ bitWidth :=
        Nat.mul_lt_mul_of_pos_left (by omega) some
      _ ≤ chunkBound bitWidth * 2 ^ bitWidth := Nat.mul_le_mul_right _ bounded
      _ = 2 ^ 63 := whole

namespace ChunkFits

theorem of_le {limit count smaller : Nat} (fits : ChunkFits limit count)
    (less : smaller ≤ count) : ChunkFits limit smaller where
  count_lt := Nat.lt_of_le_of_lt less fits.count_lt
  sum_lt := Nat.lt_of_le_of_lt (Nat.mul_le_mul_right _ less) fits.sum_lt
  limit_lt := fits.limit_lt

theorem products_lt {limit count : Nat} (fits : ChunkFits limit count) :
    count * (limit * limit) < 2 ^ 95 := by
  rcases Nat.eq_zero_or_pos limit with none | some
  · simp [none]
  · calc
      count * (limit * limit) = count * limit * limit := (Nat.mul_assoc _ _ _).symm
      _ < 2 ^ 63 * limit := Nat.mul_lt_mul_of_pos_right fits.sum_lt some
      _ ≤ 2 ^ 63 * 2 ^ 32 := Nat.mul_le_mul_left _ (Nat.le_of_lt fits.limit_lt)
      _ = 2 ^ 95 := by decide

end ChunkFits

namespace ExactSums

structure Bounded (limit : Nat) (sums : ExactSums) : Prop where
  sumX : sums.sumX.natAbs ≤ sums.count * limit
  sumY : sums.sumY.natAbs ≤ sums.count * limit
  sumXY : sums.sumXY.natAbs ≤ sums.count * (limit * limit)

theorem empty_bounded (limit : Nat) : Bounded limit empty := by
  constructor <;> simp [empty]

theorem Bounded.add {limit : Nat} {sums : ExactSums} (bounded : sums.Bounded limit) {x y : Int}
    (xSmall : x.natAbs ≤ limit) (ySmall : y.natAbs ≤ limit) : (sums.add x y).Bounded limit := by
  have product : (x * y).natAbs ≤ limit * limit := by
    rw [Int.natAbs_mul]
    exact Nat.mul_le_mul xSmall ySmall
  constructor <;> simp only [ExactSums.add, Nat.add_mul, Nat.one_mul]
  · exact Nat.le_trans (Int.natAbs_add_le _ _) (Nat.add_le_add bounded.sumX xSmall)
  · exact Nat.le_trans (Int.natAbs_add_le _ _) (Nat.add_le_add bounded.sumY ySmall)
  · exact Nat.le_trans (Int.natAbs_add_le _ _) (Nat.add_le_add bounded.sumXY product)

theorem add_checked_eq {limit : Nat} {sums : ExactSums} (bounded : sums.Bounded limit) {x y : Int}
    (xSmall : x.natAbs ≤ limit) (ySmall : y.natAbs ≤ limit)
    (fits : ChunkFits limit (sums.count + 1)) :
    sums.addChecked x y = some (sums.add x y) := by
  have added := bounded.add xSmall ySmall
  have product : (x * y).natAbs ≤ limit * limit := by
    rw [Int.natAbs_mul]
    exact Nat.mul_le_mul xSmall ySmall
  have once : limit * limit ≤ (sums.count + 1) * (limit * limit) :=
    Nat.le_mul_of_pos_left _ (Nat.succ_pos _)
  have products := fits.products_lt
  have limitLt := fits.limit_lt
  have sumLt := fits.sum_lt
  have countLt := fits.count_lt
  have xFits : signed 64 x = some x := signed_eq_some (by omega)
  have yFits : signed 64 y = some y := signed_eq_some (by omega)
  have sumXFits : signed 64 (sums.sumX + x) = some (sums.sumX + x) :=
    signed_eq_some (Nat.lt_of_le_of_lt added.sumX sumLt)
  have sumYFits : signed 64 (sums.sumY + y) = some (sums.sumY + y) :=
    signed_eq_some (Nat.lt_of_le_of_lt added.sumY sumLt)
  have productFits : signed 128 (x * y) = some (x * y) := signed_eq_some (by omega)
  have sumXYFits : signed 128 (sums.sumXY + x * y) = some (sums.sumXY + x * y) :=
    signed_eq_some (Nat.lt_trans (Nat.lt_of_le_of_lt added.sumXY products) (by decide))
  have countFits : signed 64 (sums.count + 1) = some ((sums.count : Int) + 1) :=
    signed_eq_some (by omega)
  simp only [addChecked, xFits, yFits, sumXFits, sumYFits, productFits, sumXYFits, countFits,
    Option.bind_eq_bind, Option.bind_some]
  rfl

example : (ExactSums.mk 1 9223372036854775807 0 0).addChecked 1 0 = none := by decide

/-- As many pairs as one chunk can sum leave every sum in range. -/
theorem add_pairs_checked_eq {limit : Nat} {sums : ExactSums} (bounded : sums.Bounded limit)
    (pairs : List (Int × Int))
    (small : ∀ pair ∈ pairs, pair.1.natAbs ≤ limit ∧ pair.2.natAbs ≤ limit)
    (fits : ChunkFits limit (sums.count + pairs.length)) :
    let reached := pairs.foldl (fun sums pair => sums.add pair.1 pair.2) sums
    pairs.foldlM (fun sums pair => sums.addChecked pair.1 pair.2) sums = some reached ∧
      reached.Bounded limit ∧ reached.count = sums.count + pairs.length := by
  have loop := foldl_m_eq_some (fun sums (pair : Int × Int) => sums.addChecked pair.1 pair.2)
    (fun sums pair => sums.add pair.1 pair.2)
    (fun rest state => state.Bounded limit ∧
      state.count + rest.length = sums.count + pairs.length ∧
      ∀ pair ∈ rest, pair.1.natAbs ≤ limit ∧ pair.2.natAbs ≤ limit)
    (by
      intro pair rest state ⟨stateBounded, left, restSmall⟩
      rw [List.length_cons] at left
      obtain ⟨xSmall, ySmall⟩ := restSmall pair List.mem_cons_self
      refine ⟨add_checked_eq stateBounded xSmall ySmall (fits.of_le (by omega)),
        stateBounded.add xSmall ySmall, ?_, ?_⟩
      · simp only [add]
        omega
      · intro later found
        exact restSmall later (List.mem_cons_of_mem _ found))
    pairs sums ⟨bounded, rfl, small⟩
  exact ⟨loop.1, loop.2.1, by simpa using loop.2.2.1⟩

section Runs

variable {ε : Type} [Inhabited ε] {limit : Nat} {toInt : ε → Int}

def addSlot (toInt : ε → Int) (x y : Sequence ε) (sums : ExactSums) (index : Nat) : ExactSums :=
  sums.add (toInt (x.value index)) (toInt (y.value index))

theorem add_run_checked_eq (small : ∀ value, (toInt value).natAbs ≤ limit) (x y : Sequence ε)
    {sums : ExactSums} (bounded : sums.Bounded limit) {run : Run} (inMemory : run.stop < 2 ^ 64)
    (fits : ChunkFits limit (sums.count + run.length)) :
    sums.addRunChecked toInt x y run = some (run.slots.foldl (addSlot toInt x y) sums) ∧
      (run.slots.foldl (addSlot toInt x y) sums).Bounded limit ∧
      (run.slots.foldl (addSlot toInt x y) sums).count = sums.count + run.length := by
  have stop : unsigned 64 (run.start + run.length) = some (run.start + run.length) :=
    unsigned_eq_some inMemory
  have size : run.start + run.length - run.start = run.length := by omega
  have length : (run.slots.map fun index => (toInt (x.value index), toInt (y.value index))).length =
      run.length := by simp [Run.slots]
  have loop := add_pairs_checked_eq bounded
    (run.slots.map fun index => (toInt (x.value index), toInt (y.value index)))
    (by
      intro pair found
      obtain ⟨index, _, rfl⟩ := List.mem_map.mp found
      exact ⟨small _, small _⟩)
    (by rwa [length])
  rw [length, List.foldlM_map, List.foldl_map] at loop
  simp only [addRunChecked, stop, size, Option.bind_eq_bind, Option.bind_some]
  exact loop

theorem of_runs_checked_eq (small : ∀ value, (toInt value).natAbs ≤ limit) (x y : Sequence ε)
    {runs : List Run} (inMemory : ∀ run ∈ runs, run.stop < 2 ^ 64)
    (fits : ChunkFits limit (Run.totalLength runs)) :
    ofRunsChecked toInt x y runs = some (ofRuns toInt x y runs) ∧
      (ofRuns toInt x y runs).Bounded limit ∧
      (ofRuns toInt x y runs).count = Run.totalLength runs := by
  have loop := foldl_m_eq_some (addRunChecked toInt x y)
    (fun sums run => run.slots.foldl (addSlot toInt x y) sums)
    (fun rest state => state.Bounded limit ∧ (∀ run ∈ rest, run.stop < 2 ^ 64) ∧
      state.count + Run.totalLength rest = Run.totalLength runs)
    (by
      intro run rest state ⟨stateBounded, restInMemory, left⟩
      have total : Run.totalLength (run :: rest) = run.length + Run.totalLength rest := rfl
      obtain ⟨succeeds, bounded, count⟩ := add_run_checked_eq small x y stateBounded
        (restInMemory run List.mem_cons_self) (fits.of_le (by omega))
      refine ⟨succeeds, bounded, ?_, by omega⟩
      intro later found
      exact restInMemory later (List.mem_cons_of_mem _ found))
    runs empty ⟨empty_bounded limit, inMemory, by simp [empty]⟩
  have flattened : ofRuns toInt x y runs =
      runs.foldl (fun sums run => run.slots.foldl (addSlot toInt x y) sums) empty :=
    List.foldl_flatMap
  rw [flattened]
  exact ⟨loop.1, loop.2.1, by simpa [Run.totalLength] using loop.2.2.2⟩

end Runs

variable {α : Type} [Scalar α]

omit [Scalar α] in
theorem product_le {sums : ExactSums} (xFits : sums.sumX.natAbs ≤ 2 ^ 63)
    (yFits : sums.sumY.natAbs ≤ 2 ^ 63) : (sums.sumX * sums.sumY).natAbs ≤ 2 ^ 126 := by
  rw [Int.natAbs_mul]
  calc
    sums.sumX.natAbs * sums.sumY.natAbs ≤ 2 ^ 63 * 2 ^ 63 := Nat.mul_le_mul xFits yFits
    _ = 2 ^ 126 := by decide

omit [Scalar α] in
theorem quotient_le {sums : ExactSums} (xFits : sums.sumX.natAbs ≤ 2 ^ 63)
    (yFits : sums.sumY.natAbs ≤ 2 ^ 63) : sums.quotient.natAbs ≤ 2 ^ 126 :=
  Nat.le_trans (Int.natAbs_tdiv_le_natAbs _ _) (product_le xFits yFits)

theorem comoment_checked_of_sums {sums : ExactSums} (xFits : sums.sumX.natAbs ≤ 2 ^ 63)
    (yFits : sums.sumY.natAbs ≤ 2 ^ 63) (some : sums.count ≠ 0) :
    (sums.comomentChecked : Option α) =
      (signed 128 (sums.sumXY - sums.quotient)).map fun difference =>
        Scalar.ofInt difference - Scalar.ofInt sums.remainder / Scalar.ofInt sums.count := by
  have divisor : (sums.count : Int) ≠ 0 := by exact_mod_cast some
  have productFits : signed 128 (sums.sumX * sums.sumY) = Option.some (sums.sumX * sums.sumY) :=
    signed_eq_some (Nat.lt_of_le_of_lt (product_le xFits yFits) (by decide))
  have quotientFits : signed 128 ((sums.sumX * sums.sumY).tdiv sums.count) =
      Option.some sums.quotient :=
    signed_eq_some (Nat.lt_of_le_of_lt (quotient_le xFits yFits) (by decide))
  have dividedFits : dividedChecked (sums.sumX * sums.sumY) sums.count =
      Option.some (sums.quotient, sums.remainder) := by
    unfold dividedChecked
    rw [if_neg divisor, quotientFits]
    rfl
  unfold comomentChecked
  rw [if_neg some, productFits]
  simp only [dividedFits, Option.bind_eq_bind, Option.bind_some]
  cases signed 128 (sums.sumXY - sums.quotient) <;> rfl

theorem comoment_checked_eq {limit : Nat} {sums : ExactSums} (bounded : sums.Bounded limit)
    (fits : ChunkFits limit sums.count) :
    sums.comomentChecked = some (sums.comoment : α) := by
  have sumLt := fits.sum_lt
  have xSmall : sums.sumX.natAbs < 2 ^ 63 := Nat.lt_of_le_of_lt bounded.sumX sumLt
  have ySmall : sums.sumY.natAbs < 2 ^ 63 := Nat.lt_of_le_of_lt bounded.sumY sumLt
  have sumXY : sums.sumXY.natAbs < 2 ^ 95 := Nat.lt_of_le_of_lt bounded.sumXY fits.products_lt
  by_cases none : sums.count = 0
  · unfold comomentChecked comoment
    rw [if_pos none, if_pos none]
  · have quotient := quotient_le xSmall.le ySmall.le
    rw [comoment_checked_of_sums xSmall.le ySmall.le none, signed_eq_some (by omega), comoment,
      if_neg none]
    rfl

theorem moments_checked_eq {limit : Nat} {sums : ExactSums} (bounded : sums.Bounded limit)
    (fits : ChunkFits limit sums.count) :
    sums.momentsChecked = some (sums.moments : Moments α) := by
  unfold momentsChecked moments
  rw [comoment_checked_eq bounded fits]
  split <;> rfl

end ExactSums

namespace Moments

variable {ε α : Type} [Scalar α]

theorem merge_checked_eq {first second : Moments α}
    (nonneg : 0 ≤ first.count + second.count) (small : first.count + second.count < 2 ^ 63) :
    first.mergeChecked second = some (first.merge second) := by
  have count : signed 64 (first.count + second.count) = some (first.count + second.count) :=
    signed_eq_some (by omega)
  unfold mergeChecked
  rw [count, ← merge_count]
  unfold merge
  split
  · rfl
  · split <;> rfl

variable [Inhabited ε] {limit : Nat} {toInt : ε → Int}

/-- One chunk: the pairs merged so far are no more than the slots passed. -/
theorem merge_window_checked_eq (small : ∀ value, (toInt value).natAbs ≤ limit)
    {x y : Sequence ε} (xLawful : x.Lawful) (yLawful : y.Lawful)
    (short : min x.length y.length < 2 ^ 63) {moments : Moments α} {window : Run}
    (fits : ChunkFits limit window.length) (inside : window.stop ≤ min x.length y.length)
    (nonneg : 0 ≤ moments.count) (passed : moments.count ≤ window.start) :
    mergeWindowChecked toInt x y moments window = some (mergeWindow toInt x y moments window) ∧
      0 ≤ (mergeWindow toInt x y moments window).count ∧
      (mergeWindow toInt x y moments window).count ≤ window.stop := by
  have total := paired_runs_in_total xLawful yLawful window.start window.length
  have inMemory : ∀ run ∈ pairedRunsIn x y window.start window.length, run.stop < 2 ^ 64 := by
    intro run found
    have bounds := paired_runs_in_bounds xLawful yLawful found
    omega
  obtain ⟨summed, bounded, count⟩ := ExactSums.of_runs_checked_eq small x y inMemory
    (fits.of_le total)
  rw [← count] at total
  have stop : window.stop = window.start + window.length := rfl
  unfold mergeWindowChecked mergeWindow
  rw [summed]
  simp only [Option.bind_eq_bind, Option.bind_some]
  generalize ExactSums.ofRuns toInt x y (pairedRunsIn x y window.start window.length) = chunk at *
  split
  · exact ⟨rfl, nonneg, by omega⟩
  · have chunkCount := of_sums_count (α := α) chunk
    rw [ExactSums.moments_checked_eq bounded (fits.of_le total), Option.bind_some, merge_count]
    exact ⟨merge_checked_eq (by omega) (by omega), by omega, by omega⟩

theorem merge_chunks_checked_eq (small : ∀ value, (toInt value).natAbs ≤ limit) {bound : Nat}
    (fits : ∀ count, count ≤ max bound 1 → count < 2 ^ 63 → ChunkFits limit count)
    {x y : Sequence ε} (xLawful : x.Lawful) (yLawful : y.Lawful)
    (short : min x.length y.length < 2 ^ 63) (start : Nat) (moments : Moments α)
    (nonneg : 0 ≤ moments.count) (passed : moments.count ≤ start) :
    mergeChunksChecked toInt bound x y start moments =
      some (mergeChunks toInt bound x y start moments) := by
  fun_induction mergeChunks toInt bound x y start moments with
  | case1 start moments stop inside span chunk ih =>
    have next : unsigned 64 (start + span) = some (start + span) := unsigned_eq_some (by omega)
    obtain ⟨merged, nextNonneg, nextPassed⟩ := merge_window_checked_eq small xLawful yLawful short
      (fits span (by omega) (by omega)) (show Run.stop ⟨start, span⟩ ≤ _ by
        change start + span ≤ stop
        omega) nonneg passed
    rw [mergeChunksChecked, if_pos inside]
    change ((mergeWindowChecked toInt x y moments ⟨start, span⟩).bind fun merged =>
      (unsigned 64 (start + span)).bind fun _ =>
        mergeChunksChecked toInt bound x y (start + span) merged) = _
    rw [merged, next, Option.bind_some, Option.bind_some]
    exact ih nextNonneg nextPassed
  | case2 start moments stop outside =>
    rw [mergeChunksChecked, if_neg outside]

end Moments

/-- For every narrow element type, with the chunks that the table of accumulations calls for, no
operation of the exact accumulation leaves its machine integer. -/
theorem exact_moments_in_range {ε α : Type} [Element ε] [Scalar α] {bitWidth : Nat}
    (selected : Strategy.select (Element.dataType (ε := ε)) = .ok (.integerExact bitWidth))
    {x y : Sequence ε} (xLawful : x.Lawful) (yLawful : y.Lawful)
    (xLength : x.length < 2 ^ 63) (yLength : y.length < 2 ^ 63) (scale : Int) :
    Element.momentsChecked x y = some (Element.moments scale x y : Moments α) := by
  have table := Element.select_dataType (ε := ε)
  rw [selected] at table
  unfold Element.momentsChecked Element.moments
  cases reading : Element.reading (ε := ε) with
  | wide quantity =>
    rw [reading] at table
    simp [Reading.strategy] at table
  | narrow bitWidth toInt narrow sizes =>
    have positive : 0 < chunkBound bitWidth := by
      rw [chunkBound, Nat.one_shiftLeft]
      exact Nat.two_pow_pos _
    have small : ∀ value, (toInt value).natAbs ≤ 2 ^ bitWidth - 1 := by
      intro value
      have size := sizes value
      rw [Nat.one_shiftLeft] at size
      omega
    apply Moments.merge_chunks_checked_eq small _ xLawful yLawful (by omega) 0 Moments.empty
      (Int.le_refl 0) (Int.le_refl 0)
    intro count bounded short
    exact chunk_fits narrow (by omega) short

theorem exact_moments_in_range_extremes :
    let x := Sequence.ofOptions #[some Int32.minValue, none, some Int32.minValue]
    let y := Sequence.ofOptions #[some Int32.minValue, some 7, some Int32.maxValue]
    Strategy.select (Element.dataType (ε := Int32)) = .ok (.integerExact 32) ∧
      x.Lawful ∧ y.Lawful ∧ x.length < 2 ^ 63 ∧ y.length < 2 ^ 63 ∧
      Element.momentsChecked x y = some (Element.moments 0 x y : Moments Float) := by
  intro x y
  have xLawful : x.Lawful := Sequence.of_options_lawful _
  have yLawful : y.Lawful := Sequence.of_options_lawful _
  have xLength : x.length < 2 ^ 63 := by decide
  have yLength : y.length < 2 ^ 63 := by decide
  exact ⟨rfl, xLawful, yLawful, xLength, yLength,
    exact_moments_in_range rfl xLawful yLawful xLength yLength 0⟩

end Comoment
