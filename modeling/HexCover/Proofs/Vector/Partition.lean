import HexCover.Proofs.Vector.Batch
import Mathlib.Algebra.Order.Floor.Semifield
import Mathlib.Data.Rat.Floor

/-! Chunks as a partition of a batch. The number of chunks is the quotient of the records
by the chunk size, rounded up. Below that number there is one chunk for each index, which
holds the records from a multiple of the chunk size on, and windows of chunks that follow
each other join. -/
namespace HexCover.Vector.Batch

theorem numChunks_eq_ceil (b : Batch) :
    b.numChunks = ⌈(b.records.size : ℚ) / b.chunkSize⌉₊ := by
  apply eq_of_forall_lt_iff
  intro index
  have positive : (0 : ℚ) < b.chunkSize := Nat.cast_pos.mpr b.chunkSize_pos
  rw [lt_numChunks_iff, Nat.lt_ceil, lt_div_iff₀ positive]
  exact_mod_cast Iff.rfl

section Piece

variable (b : Batch) (index : Nat)

theorem length_records_piece : (b.piece index).records.length =
    min b.chunkSize (b.records.size - index * b.chunkSize) := by
  rw [piece, List.length_take, List.length_drop, Array.length_toList]

theorem getElem?_records_piece {k : Nat} (inside : k < b.chunkSize) :
    (b.piece index).records[k]? = b.records.toList[index * b.chunkSize + k]? := by
  rw [piece, List.getElem?_take_of_lt inside, List.getElem?_drop]

variable {b index}

theorem records_piece_ne_nil (inside : index < b.numChunks) : (b.piece index).records ≠ [] := by
  have start := lt_numChunks_iff.mp inside
  have positive := b.chunkSize_pos
  rw [← List.length_pos_iff, length_records_piece]
  omega

/-- Only the last chunk may be short: where another one follows, its first record is there. -/
theorem length_records_piece_of_next (next : index + 1 < b.numChunks) :
    (b.piece index).records.length = b.chunkSize := by
  have start := lt_numChunks_iff.mp next
  rw [Nat.add_mul, Nat.one_mul] at start
  rw [length_records_piece]
  omega

end Piece

theorem chunk?_eq_some_iff {b : Batch} (bounded : b.records.size < Size.bound) {index : Nat}
    {c : Chunk} : b.chunk? index = some c ↔ index < b.numChunks ∧ b.piece index = c := by
  by_cases inside : index < b.numChunks
  · simp [chunk?_eq_piece bounded inside, inside]
  · simp [chunk?_eq_none (Nat.not_lt.mp inside), inside]

theorem map_some_chunksIn {b : Batch} (bounded : b.records.size < Size.bound)
    (first last : Nat) : (b.chunksIn first last).map some =
      (List.range' first (min last b.numChunks - first)).map b.chunk? := by
  rw [chunksIn_eq bounded, List.map_map]
  apply List.map_congr_left
  intro index member
  have range := List.mem_range'_1.mp member
  exact (chunk?_eq_piece bounded (by omega)).symm

theorem make_eq_ok {ids : List UInt64} {geometries : List (List UInt8)} {chunkSize : Nat}
    (same : ids.length = geometries.length) (sized : 0 < chunkSize) :
    make ids geometries chunkSize =
      .ok ⟨(ids.zipWith Record.mk geometries).toArray, chunkSize, sized⟩ := by
  simp [make, same, sized]

/-- Parallel lists of identifiers and geometries are divided into as many chunks as the chunk
size goes into them, rounded up, and there is a chunk for each index below that number only,
also where the product of index and chunk size is no size. A chunk has its index, is not empty,
is full unless it is the last one, and its records are those of the batch from the multiple of
the chunk size on. All chunks together hold each identifier with its own geometry, in order. A
window holds the chunks of its indexes, and two windows that follow each other join. -/
theorem make_partition {ids : List UInt64} {geometries : List (List UInt8)} {chunkSize : Nat}
    (same : ids.length = geometries.length) (bounded : ids.length < Size.bound)
    (sized : 0 < chunkSize) :
    ∃ b, make ids geometries chunkSize = .ok b ∧
      b.numChunks = ⌈(ids.length : ℚ) / chunkSize⌉₊ ∧
      (∀ index, (b.chunk? index).isSome ↔ index < b.numChunks) ∧
      (∀ index c, b.chunk? index = some c →
        c.index = index ∧ c.records ≠ [] ∧ c.records.length ≤ chunkSize ∧
        (index + 1 ≠ b.numChunks → c.records.length = chunkSize) ∧
        ∀ k < c.records.length, ∃ id geometry,
          c.records[k]? = some ⟨id, geometry⟩ ∧ ids[index * chunkSize + k]? = some id ∧
            geometries[index * chunkSize + k]? = some geometry) ∧
      b.chunks.flatMap Chunk.records = ids.zipWith Record.mk geometries ∧
      (∀ first last, (b.chunksIn first last).map some =
        (List.range' first (min last b.numChunks - first)).map b.chunk?) ∧
      ∀ first mid last, first ≤ mid → mid ≤ last →
        b.chunksIn first mid ++ b.chunksIn mid last = b.chunksIn first last := by
  have count : (ids.zipWith Record.mk geometries).toArray.size = ids.length := by
    rw [List.size_toArray, List.length_zipWith, same, Nat.min_self]
  refine ⟨_, make_eq_ok same sized, ?_⟩
  generalize whole : (⟨(ids.zipWith Record.mk geometries).toArray, chunkSize, sized⟩ : Batch) = b
  have records : b.records.toList = ids.zipWith Record.mk geometries := by rw [← whole]
  have size : b.records.size = ids.length := by rw [← whole, count]
  have step : b.chunkSize = chunkSize := by rw [← whole]
  have fits : b.records.size < Size.bound := size ▸ bounded
  refine ⟨?_, fun index => ?_, fun index c present => ?_, ?_, map_some_chunksIn fits,
    fun _ _ _ before after => chunksIn_append fits before after⟩
  · rw [numChunks_eq_ceil, size, step]
  · simp only [Option.isSome_iff_exists, chunk?_eq_some_iff fits, exists_and_left, exists_eq',
      and_true]
  · obtain ⟨inside, rfl⟩ := (chunk?_eq_some_iff fits).mp present
    have length := b.length_records_piece index
    refine ⟨rfl, records_piece_ne_nil inside, by omega, fun other => ?_, fun k early => ?_⟩
    · rw [length_records_piece_of_next (by omega), step]
    · have position := b.getElem?_records_piece index (k := k) (by omega)
      rw [step] at length position
      have first : index * chunkSize + k < ids.length := by omega
      have second : index * chunkSize + k < geometries.length := same ▸ first
      refine ⟨ids[index * chunkSize + k], geometries[index * chunkSize + k], ?_,
        List.getElem?_eq_getElem first, List.getElem?_eq_getElem second⟩
      rw [position, records, List.getElem?_zipWith, List.getElem?_eq_getElem first,
        List.getElem?_eq_getElem second]
  · rw [flatMap_chunks fits, records]

/-- The largest chunk size: the only chunk has all records, and the index 2, whose product with
the chunk size is no size, has none. -/
theorem make_partition_largest :
    ∃ b, make [5, 9, 5] [[2], [], [1]] (2 ^ 64 - 1) = .ok b ∧ b.numChunks = 1 ∧
      Size.mul? 2 b.chunkSize = none ∧ b.chunk? 2 = none ∧
      b.chunks.flatMap Chunk.records = [⟨5, [2]⟩, ⟨9, []⟩, ⟨5, [1]⟩] ∧
      b.chunksIn 0 1 ++ b.chunksIn 1 7 = b.chunksIn 0 7 := by
  obtain ⟨b, made, count, present, _, all, _, join⟩ :=
    make_partition (show [5, 9, 5].length = [[2], [], [1]].length from rfl) (by decide)
      (show 0 < 2 ^ 64 - 1 from by decide)
  have one : b.numChunks = 1 := by
    rw [count, Nat.ceil_eq_iff Nat.one_ne_zero]
    norm_num
  have same := Except.ok.inj ((make_eq_ok rfl (by decide)).symm.trans made)
  refine ⟨b, made, one, ?_, ?_, all, join 0 1 7 (by decide) (by decide)⟩
  · rw [← same]
    rfl
  · rw [← Option.not_isSome_iff_eq_none, present, one]
    decide

end HexCover.Vector.Batch
