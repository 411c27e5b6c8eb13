import HexCover.Proofs.Lists
import HexCover.Vector.Batch
import Mathlib.Data.List.Range

/-! The chunks of a batch. A batch has no more records than there are sizes. Its chunks
are then the pieces of its records: there is one for each index below the number of
chunks and no other, and all of them together hold the records in order. -/
namespace HexCover.Vector.Batch

/-- The records of a batch from an index of a chunk on, as many as a chunk holds. -/
def piece (b : Batch) (index : Nat) : Chunk :=
  ⟨index, (b.records.toList.drop (index * b.chunkSize)).take b.chunkSize⟩

theorem lt_numChunks_iff {b : Batch} {index : Nat} :
    index < b.numChunks ↔ index * b.chunkSize < b.records.size :=
  Size.lt_divCeil_iff b.chunkSize_pos

theorem chunk?_eq_piece {b : Batch} (bounded : b.records.size < Size.bound) {index : Nat}
    (inside : index < b.numChunks) : b.chunk? index = some (b.piece index) := by
  have start := lt_numChunks_iff.mp inside
  have fits : index * b.chunkSize < Size.bound := by omega
  have last : min (Size.addSaturating (index * b.chunkSize) b.chunkSize) b.records.size =
      min (index * b.chunkSize + b.chunkSize) b.records.size := by
    unfold Size.addSaturating
    omega
  have records : (b.records.toList.drop (index * b.chunkSize)).take
      (min (index * b.chunkSize + b.chunkSize) b.records.size - index * b.chunkSize) =
      (b.records.toList.drop (index * b.chunkSize)).take b.chunkSize := by
    apply List.take_eq_take_iff.mpr
    simp only [List.length_drop, Array.length_toList]
    omega
  simp [chunk?, Size.mul?, fits, start, last, records, piece]

theorem chunk?_eq_none {b : Batch} {index : Nat} (outside : b.numChunks ≤ index) :
    b.chunk? index = none := by
  have start : b.records.size ≤ index * b.chunkSize :=
    Nat.le_of_not_lt (mt lt_numChunks_iff.mpr (Nat.not_lt.mpr outside))
  by_cases fits : index * b.chunkSize < Size.bound
  · simp [chunk?, Size.mul?, fits, start]
  · simp [chunk?, Size.mul?, fits]

theorem chunksFrom_eq {b : Batch} (bounded : b.records.size < Size.bound) (index count : Nat) :
    b.chunksFrom index count =
      (List.range' index (min count (b.numChunks - index))).map b.piece := by
  induction count generalizing index with
  | zero => simp [chunksFrom]
  | succ count ih =>
    by_cases inside : index < b.numChunks
    · have length : min (count + 1) (b.numChunks - index) =
          min count (b.numChunks - (index + 1)) + 1 := by omega
      rw [chunksFrom, chunk?_eq_piece bounded inside, ih, length, List.range'_succ]
      rfl
    · have none : b.numChunks - index = 0 := by omega
      rw [chunksFrom, chunk?_eq_none (Nat.not_lt.mp inside), none]
      rfl

theorem chunksIn_eq {b : Batch} (bounded : b.records.size < Size.bound) (first last : Nat) :
    b.chunksIn first last =
      (List.range' first (min last b.numChunks - first)).map b.piece := by
  have length : min (last - first) (b.numChunks - first) = min last b.numChunks - first := by omega
  rw [chunksIn, chunksFrom_eq bounded, length]

theorem chunks_eq {b : Batch} (bounded : b.records.size < Size.bound) :
    b.chunks = (List.range b.numChunks).map b.piece := by
  rw [chunks, chunksIn_eq bounded, List.range_eq_range', Nat.min_self, Nat.sub_zero]

theorem chunksIn_append {b : Batch} (bounded : b.records.size < Size.bound) {first mid last : Nat}
    (before : first ≤ mid) (after : mid ≤ last) :
    b.chunksIn first mid ++ b.chunksIn mid last = b.chunksIn first last := by
  simp only [chunksIn_eq bounded, ← List.map_append]
  by_cases inside : mid ≤ b.numChunks
  · have start : mid = first + (mid - first) := by omega
    have length : min last b.numChunks - first =
        (mid - first) + (min last b.numChunks - mid) := by omega
    rw [Nat.min_eq_left inside, length, ← List.range'_append_1, ← start]
  · have none : min last b.numChunks - mid = 0 := by omega
    have all : min last b.numChunks = min mid b.numChunks := by omega
    rw [none, List.range'_zero, List.append_nil, all]

theorem exists_of_mem_chunksIn {b : Batch} (bounded : b.records.size < Size.bound)
    {first last : Nat} {c : Chunk} (member : c ∈ b.chunksIn first last) :
    ∃ i, first ≤ i ∧ i < last ∧ i < b.numChunks ∧ b.chunk? i = some c := by
  rw [chunksIn_eq bounded] at member
  obtain ⟨i, inside, rfl⟩ := List.mem_map.mp member
  have range := List.mem_range'_1.mp inside
  exact ⟨i, range.1, by omega, by omega, chunk?_eq_piece bounded (by omega)⟩

/-- The chunks hold the records of the batch, each once and in order. -/
theorem flatMap_chunks {b : Batch} (bounded : b.records.size < Size.bound) :
    b.chunks.flatMap Chunk.records = b.records.toList := by
  rw [chunks_eq bounded, List.flatMap_map]
  exact flatMap_pieces b.records.toList b.chunkSize_pos

end HexCover.Vector.Batch
