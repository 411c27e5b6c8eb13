import HexCover.Proofs.Pool
import HexCover.Proofs.Vector.Batch
import HexCover.Vector.Convert
import HexCover.Vector.Toy

/-! What a conversion of a batch gives. It succeeds when every record can be
converted, and its pairs are then those of the records one after the other, for
every size of chunks and every order in which chunks finish. Otherwise it reports
the first failure of some chunk. -/
namespace HexCover.Vector

namespace Indexing

theorem chunk_eq_ok {x : Indexing} {c : Chunk}
    (good : ∀ r ∈ c.records, ∃ pairs, x.record r = .ok pairs) :
    x.chunk c = .ok (c.records.filterMap fun r => (x.record r).toOption).flatten := by
  rw [chunk, mapM_eq_ok_filterMap good]
  rfl

theorem chunk_eq_error_iff {x : Indexing} {c : Chunk} {e : ConversionError} :
    x.chunk c = .error e ↔ FirstFailure x.record c.records e := by
  rw [chunk, map_eq_error_iff, mapM_eq_error_iff]

theorem batch_eq_ok {x : Indexing} (pool : WorkerPool) {b : Batch}
    (bounded : b.records.size < Size.bound)
    (good : ∀ r ∈ b.records.toList, ∃ pairs, x.record r = .ok pairs) :
    x.batch pool b = .ok (b.records.toList.filterMap fun r => (x.record r).toOption).flatten := by
  have chunks : ∀ c ∈ b.chunks, x.chunk c =
      .ok (c.records.filterMap fun r => (x.record r).toOption).flatten := by
    intro c member
    apply chunk_eq_ok
    intro r inside
    refine good r ?_
    rw [← Batch.flatMap_chunks bounded]
    exact List.mem_flatMap.mpr ⟨c, member, inside⟩
  have values : b.chunks.filterMap (fun c => (x.chunk c).toOption) =
      b.chunks.map fun c => (c.records.filterMap fun r => (x.record r).toOption).flatten := by
    rw [← List.filterMap_eq_map]
    apply List.filterMap_congr
    intro c member
    simp [chunks c member, Except.toOption]
  have collected : x.window pool b 0 b.numChunks = .ok
      (b.chunks.map fun c => (c.records.filterMap fun r => (x.record r).toOption).flatten) := by
    rw [← values]
    exact (pool.collect_map_eq_ok_iff).mpr
      (mapM_eq_ok_filterMap fun c member => ⟨_, chunks c member⟩)
  rw [batch, collected, ← Batch.flatMap_chunks bounded, List.filterMap_flatMap]
  simp [Except.map, List.flatMap, List.flatten_flatten, Function.comp_def]

theorem batch_eq_error {x : Indexing} (pool : WorkerPool) {b : Batch}
    (bounded : b.records.size < Size.bound) {r : Record} (member : r ∈ b.records.toList)
    {e : ConversionError} (failed : x.record r = .error e) :
    ∃ c ∈ b.chunks, ∃ e', x.batch pool b = .error e' ∧ FirstFailure x.record c.records e' := by
  cases outcome : x.window pool b 0 b.numChunks with
  | ok found =>
    -- the chunk of the failing record cannot have succeeded
    rw [← Batch.flatMap_chunks bounded] at member
    obtain ⟨c, chunk, inside⟩ := List.mem_flatMap.mp member
    have traversed := (pool.collect_map_eq_ok_iff).mp outcome
    obtain good | ⟨e', first⟩ := forall_ok_or_firstFailure x.chunk b.chunks
    · obtain ⟨pairs, converted⟩ := good c chunk
      obtain good | ⟨e', first⟩ := forall_ok_or_firstFailure x.record c.records
      · obtain ⟨pairs, found⟩ := good r inside
        simp [failed] at found
      · simp [chunk_eq_error_iff.mpr first] at converted
    · have stopped := first.mapM_eq
      simp [Batch.chunks, traversed] at stopped
  | error e' =>
    obtain ⟨c, chunk, stopped⟩ := WorkerPool.collect_map_eq_error outcome
    refine ⟨c, chunk, e', ?_, chunk_eq_error_iff.mp stopped⟩
    rw [batch, outcome]
    rfl

/-- The results of the first chunks are in their order, one for each. -/
theorem getElem_of_mapM_chunksIn {x : Indexing} {b : Batch}
    (bounded : b.records.size < Size.bound) {m : Nat} (within : m ≤ b.numChunks)
    {results : List Pairs} (h : (b.chunksIn 0 m).mapM x.chunk = .ok results) :
    results.length = m ∧
      ∀ i (inside : i < results.length), (b.chunk? i).map x.chunk = some (.ok results[i]) := by
  have traversed := mapM_eq_ok_iff.mp h
  have chunks : b.chunksIn 0 m = (List.range m).map b.piece := by
    rw [Batch.chunksIn_eq bounded, List.range_eq_range', Nat.min_eq_left within, Nat.sub_zero]
  rw [chunks] at traversed
  have length : m = results.length := by simpa using traversed.length_eq
  refine ⟨length.symm, fun i inside => ?_⟩
  have item := traversed.get (by simpa [length] using inside) inside
  rw [Batch.chunk?_eq_piece bounded (by omega)]
  simpa using item

theorem batch_eq_ok_iff {x : Indexing} (pool : WorkerPool) {b : Batch} {pairs : Pairs} :
    x.batch pool b = .ok pairs ↔ ∃ results, b.chunks.mapM x.chunk = .ok results ∧
      results.flatten = pairs := by
  rw [batch, map_eq_ok_iff]
  exact exists_congr fun results => and_congr_left' pool.collect_map_eq_ok_iff

end Indexing

namespace Converter

def cells (c : Converter) (resolution : Nat) (compacted : Bool) (r : Record) :
    Except ConversionError (List CellId) :=
  c.indexer.convert r.id r.geometry resolution compacted

def chunkRecords (c : Converter) (records : List Record) (index : Nat) : List Record :=
  (records.drop (index * c.config.chunkSize)).take c.config.chunkSize

theorem pairs_eq_error_of_resolution (c : Converter) (ids : List UInt64)
    (geometries : List (List UInt8)) {resolution : Nat} (compacted : Bool)
    (invalid : 15 < resolution) : c.pairs ids geometries resolution compacted =
      .error (.invalidResolution (Resolution.outOfRange resolution)) := by
  simp only [pairs, batch, Resolution.validate_of_ge invalid]
  rfl

theorem pairs_eq_error_of_length (c : Converter) {ids : List UInt64}
    {geometries : List (List UInt8)} {resolution : Nat} (compacted : Bool)
    (valid : resolution ≤ 15) (different : ids.length ≠ geometries.length) :
    c.pairs ids geometries resolution compacted =
      .error (.lengthMismatch ids.length geometries.length) := by
  simp only [pairs, batch, Resolution.validate_of_lt (Nat.lt_succ_of_le valid), Batch.make,
    if_pos different]
  rfl

theorem exists_pairs_eq_error_of_chunkSize {c : Converter} (unsized : c.config.chunkSize = 0)
    (ids : List UInt64) (geometries : List (List UInt8)) (resolution : Nat) (compacted : Bool) :
    ∃ e, c.pairs ids geometries resolution compacted = .error e := by
  by_cases valid : resolution ≤ 15
  · by_cases same : ids.length = geometries.length
    · simp [pairs, batch, Resolution.validate_of_lt (Nat.lt_succ_of_le valid), Batch.make, same,
        unsized, bind, Except.bind]
    · exact ⟨_, c.pairs_eq_error_of_length compacted valid same⟩
  · have invalid := Nat.lt_of_not_le valid
    exact ⟨_, c.pairs_eq_error_of_resolution ids geometries compacted invalid⟩

theorem pairs_eq_batch (c : Converter) (sized : 0 < c.config.chunkSize) {ids : List UInt64}
    {geometries : List (List UInt8)} {resolution : Nat} (compacted : Bool)
    (valid : resolution ≤ 15) (same : ids.length = geometries.length) :
    c.pairs ids geometries resolution compacted =
      Indexing.batch ⟨c.indexer, resolution, compacted⟩ c.pool
        ⟨(ids.zipWith Record.mk geometries).toArray, c.config.chunkSize, sized⟩ := by
  simp only [pairs, batch, Resolution.validate_of_lt (Nat.lt_succ_of_le valid), Batch.make,
    same, ne_eq, not_true_eq_false, if_false, dif_pos sized]
  rfl

theorem pairs_eq_ok (c : Converter) (sized : 0 < c.config.chunkSize) {ids : List UInt64}
    {geometries : List (List UInt8)} (bounded : ids.length < Size.bound) {resolution : Nat}
    {compacted : Bool} (valid : resolution ≤ 15) (same : ids.length = geometries.length)
    (cells : Record → List CellId)
    (good : ∀ r ∈ ids.zipWith Record.mk geometries,
      c.cells resolution compacted r = .ok (cells r)) :
    c.pairs ids geometries resolution compacted =
      .ok ((ids.zipWith Record.mk geometries).flatMap fun r =>
        (cells r).map fun cell => (r.id, cell)) := by
  have records : (ids.zipWith Record.mk geometries).length < Size.bound := by
    rw [List.length_zipWith]
    omega
  have converted : ∀ r ∈ ids.zipWith Record.mk geometries,
      Indexing.record ⟨c.indexer, resolution, compacted⟩ r =
        .ok ((cells r).map fun cell => (r.id, cell)) :=
    fun r member => map_eq_ok_iff.mpr ⟨cells r, good r member, rfl⟩
  rw [c.pairs_eq_batch sized compacted valid same,
    Indexing.batch_eq_ok c.pool (by simpa using records)
      fun r member => ⟨_, converted r (by simpa using member)⟩]
  simp only [List.flatMap]
  rw [← List.filterMap_eq_map]
  congr 2
  apply List.filterMap_congr
  intro r member
  simp [converted r member, Except.toOption]

theorem pairs_eq_error_of_record (c : Converter) (sized : 0 < c.config.chunkSize)
    {ids : List UInt64} {geometries : List (List UInt8)} (bounded : ids.length < Size.bound)
    {resolution : Nat} {compacted : Bool} (valid : resolution ≤ 15)
    (same : ids.length = geometries.length) {r : Record}
    (member : r ∈ ids.zipWith Record.mk geometries) {e : ConversionError}
    (failed : c.cells resolution compacted r = .error e) :
    ∃ index e', c.pairs ids geometries resolution compacted = .error e' ∧
      FirstFailure (c.cells resolution compacted)
        (c.chunkRecords (ids.zipWith Record.mk geometries) index) e' := by
  have records : (ids.zipWith Record.mk geometries).length < Size.bound := by
    rw [List.length_zipWith]
    omega
  obtain ⟨chunk, inside, e', outcome, first⟩ := Indexing.batch_eq_error
    (x := ⟨c.indexer, resolution, compacted⟩) c.pool
    (b := ⟨(ids.zipWith Record.mk geometries).toArray, c.config.chunkSize, sized⟩)
    (by simpa using records) (by simpa using member) (map_eq_error_iff.mpr failed)
  rw [Batch.chunks_eq (by simpa using records)] at inside
  obtain ⟨index, _, rfl⟩ := List.mem_map.mp inside
  refine ⟨index, e', ?_, firstFailure_map_iff.mp first⟩
  rw [c.pairs_eq_batch sized compacted valid same, outcome]

theorem exists_pairs_eq_error_iff (c : Converter) (sized : 0 < c.config.chunkSize)
    {ids : List UInt64} {geometries : List (List UInt8)} (bounded : ids.length < Size.bound)
    {resolution : Nat} {compacted : Bool} :
    (∃ e, c.pairs ids geometries resolution compacted = .error e) ↔
      15 < resolution ∨ ids.length ≠ geometries.length ∨
        ∃ r ∈ ids.zipWith Record.mk geometries, ∃ e, c.cells resolution compacted r = .error e := by
  by_cases valid : resolution ≤ 15
  · by_cases same : ids.length = geometries.length
    · obtain good | ⟨e, first⟩ := forall_ok_or_firstFailure (c.cells resolution compacted)
        (ids.zipWith Record.mk geometries)
      · have succeeded := c.pairs_eq_ok sized bounded valid same
          (fun r => (c.cells resolution compacted r).toOption.getD []) fun r member => by
            obtain ⟨found, converted⟩ := good r member
            rw [converted]
            rfl
        have none : ¬ ∃ r ∈ ids.zipWith Record.mk geometries,
            ∃ e, c.cells resolution compacted r = .error e := by
          rintro ⟨r, member, e, failed⟩
          obtain ⟨found, converted⟩ := good r member
          simp [converted] at failed
        simp only [succeeded, same, Nat.not_lt.mpr valid, none, reduceCtorEq, exists_false, ne_eq,
          not_true_eq_false, or_self]
      · obtain ⟨r, member, failed⟩ := first.fails
        obtain ⟨_, e', outcome, _⟩ :=
          c.pairs_eq_error_of_record sized bounded valid same member failed
        exact iff_of_true ⟨e', outcome⟩ (.inr (.inr ⟨r, member, e, failed⟩))
    · exact iff_of_true ⟨_, c.pairs_eq_error_of_length compacted valid same⟩ (.inr (.inl same))
  · have invalid := Nat.lt_of_not_le valid
    exact iff_of_true ⟨_, c.pairs_eq_error_of_resolution ids geometries compacted invalid⟩
      (.inl invalid)

/-- A conversion that succeeds has converted every record. -/
theorem exists_cells_of_pairs_eq_ok {c : Converter} (sized : 0 < c.config.chunkSize)
    {ids : List UInt64} {geometries : List (List UInt8)} (bounded : ids.length < Size.bound)
    {resolution : Nat} {compacted : Bool} {pairs : Pairs}
    (h : c.pairs ids geometries resolution compacted = .ok pairs) :
    ids.length = geometries.length ∧ ∃ cells : Record → List CellId,
      (∀ r ∈ ids.zipWith Record.mk geometries, c.cells resolution compacted r = .ok (cells r)) ∧
      pairs = (ids.zipWith Record.mk geometries).flatMap fun r =>
        (cells r).map fun cell => (r.id, cell) := by
  have succeeds : ¬ ∃ e, c.pairs ids geometries resolution compacted = .error e := by
    simp [h]
  rw [c.exists_pairs_eq_error_iff sized bounded] at succeeds
  simp only [not_or, not_lt, ne_eq, not_not] at succeeds
  obtain ⟨valid, same, none⟩ := succeeds
  have good : ∀ r ∈ ids.zipWith Record.mk geometries,
      ∃ cells, c.cells resolution compacted r = .ok cells := by
    intro r member
    cases outcome : c.cells resolution compacted r with
    | ok cells => exact ⟨cells, rfl⟩
    | error e => exact absurd ⟨r, member, e, outcome⟩ none
  obtain ⟨cells, converted⟩ := exists_values good
  refine ⟨same, cells, converted, ?_⟩
  exact Except.ok.inj (h.symm.trans (c.pairs_eq_ok sized bounded valid same cells converted))

/-- A conversion gives the cells of the records with their identifiers, in the order of
the records, if the resolution is one of the grid, there are as many geometries as
identifiers and every record can be converted; neither the size of chunks nor the
pool has a part in it. It fails on any other input: first for the resolution, then
for the lengths, and else with the first failure in the records of some chunk. -/
theorem pairs_eq_sequential (c : Converter) (sized : 0 < c.config.chunkSize) (ids : List UInt64)
    (geometries : List (List UInt8)) (bounded : ids.length < Size.bound) (resolution : Nat)
    (compacted : Bool) :
    (resolution ≤ 15 → ids.length = geometries.length →
      ∀ cells : Record → List CellId,
        (∀ r ∈ ids.zipWith Record.mk geometries, c.cells resolution compacted r = .ok (cells r)) →
        c.pairs ids geometries resolution compacted =
          .ok ((ids.zipWith Record.mk geometries).flatMap fun r =>
            (cells r).map fun cell => (r.id, cell))) ∧
    (15 < resolution → c.pairs ids geometries resolution compacted =
      .error (.invalidResolution (Resolution.outOfRange resolution))) ∧
    (resolution ≤ 15 → ids.length ≠ geometries.length →
      c.pairs ids geometries resolution compacted =
        .error (.lengthMismatch ids.length geometries.length)) ∧
    (resolution ≤ 15 → ids.length = geometries.length →
      (∃ r ∈ ids.zipWith Record.mk geometries, ∃ e, c.cells resolution compacted r = .error e) →
      ∃ index e, c.pairs ids geometries resolution compacted = .error e ∧
        FirstFailure (c.cells resolution compacted)
          (c.chunkRecords (ids.zipWith Record.mk geometries) index) e) ∧
    ((∃ e, c.pairs ids geometries resolution compacted = .error e) ↔
      15 < resolution ∨ ids.length ≠ geometries.length ∨
        ∃ r ∈ ids.zipWith Record.mk geometries, ∃ e,
          c.cells resolution compacted r = .error e) := by
  refine ⟨fun valid same cells => c.pairs_eq_ok sized bounded valid same cells,
    c.pairs_eq_error_of_resolution ids geometries compacted,
    c.pairs_eq_error_of_length compacted, ?_, c.exists_pairs_eq_error_iff sized bounded⟩
  rintro valid same ⟨r, member, e, failed⟩
  exact c.pairs_eq_error_of_record sized bounded valid same member failed

/-- Two records with one identifier in chunks of two, and a record that cannot be converted. -/
theorem pairs_eq_sequential_toy :
    (Converter.mk Toy.indexer { chunkSize := 2 } (.build 1 0)).pairs
          [5, 9, 5] [[2], [], [1]] 3 false =
        .ok [(5, Toy.recordCell 5 3 0), (5, Toy.recordCell 5 3 1), (5, Toy.recordCell 5 3 0)] ∧
      ∃ e, (Converter.mk Toy.indexer { chunkSize := 2 } (.build 1 0)).pairs [5, 9, 5]
        [[2], [], [255]] 3 false = .error e := by
  constructor
  · refine (pairs_eq_sequential (Converter.mk Toy.indexer { chunkSize := 2 } (.build 1 0))
      (by decide) [5, 9, 5] [[2], [], [1]] (by decide) 3 false).1 (by decide) rfl
      (fun r => (List.range (r.geometry.headD 0).toNat).map (Toy.recordCell r.id 3)) ?_
    intro r member
    simp only [List.zipWith, List.mem_cons, List.not_mem_nil, or_false] at member
    rcases member with rfl | rfl | rfl <;> rfl
  · obtain ⟨_, e, outcome, _⟩ := (pairs_eq_sequential (Converter.mk Toy.indexer
      { chunkSize := 2 } (.build 1 0)) (by decide) [5, 9, 5] [[2], [], [255]] (by decide) 3
      false).2.2.2.1 (by decide) rfl ⟨⟨5, [255]⟩, by decide, _, rfl⟩
    exact ⟨e, outcome⟩

end Converter

end HexCover.Vector
