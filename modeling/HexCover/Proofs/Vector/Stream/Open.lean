import HexCover.Proofs.Vector.Stream.Run
import HexCover.Vector.Toy
import Mathlib.Tactic.IntervalCases

/-! Streams that a converter opens on a batch. Their answers are the results of the
chunks of the batch, which put together are the conversion of the whole batch. -/
namespace HexCover.Vector

namespace Converter

def chunkCount (c : Converter) (ids : List UInt64) : Nat :=
  Size.divCeil ids.length c.config.chunkSize

/-- What the chunk with an index gives in a batch. -/
def chunkResult (c : Converter) (ids : List UInt64) (geometries : List (List UInt8))
    (resolution : Nat) (compacted : Bool) (index : Nat) : Except ConversionError Pairs :=
  Indexing.chunk ⟨c.indexer, resolution, compacted⟩
    ⟨index, c.chunkRecords (ids.zipWith Record.mk geometries) index⟩

section Open

variable (c : Converter) (sized : 0 < c.config.chunkSize) {ids : List UInt64}
  {geometries : List (List UInt8)} {resolution : Nat} (compacted : Bool)
  (valid : resolution ≤ 15) (same : ids.length = geometries.length)

include sized valid same

theorem stream_eq_ok : c.stream ids geometries resolution compacted = .ok
    { indexing := ⟨c.indexer, resolution, compacted⟩
      pool := c.pool
      batch := ⟨(ids.zipWith Record.mk geometries).toArray, c.config.chunkSize, sized⟩
      window := c.config.prefetchWindow c.pool.threads } := by
  simp only [stream, batch, Resolution.validate_of_lt (Nat.lt_succ_of_le valid), Batch.make,
    same, ne_eq, not_true_eq_false, if_false, dif_pos sized]
  rfl

theorem exists_stream (bounded : ids.length < Size.bound) :
    ∃ s, c.stream ids geometries resolution compacted = .ok s ∧ Stream.Running [] s ∧
      s.numChunks = c.chunkCount ids ∧
      s.window = c.config.prefetchWindow c.pool.threads ∧
      (∀ i result, s.chunkResult i = some result ↔
        i < c.chunkCount ids ∧ c.chunkResult ids geometries resolution compacted i = result) ∧
      ∀ (pool : WorkerPool) (pairs : Pairs),
        ({ c with pool } : Converter).pairs ids geometries resolution compacted = .ok pairs ↔
          ∃ results, s.batch.chunks.mapM s.indexing.chunk = .ok results ∧
            results.flatten = pairs := by
  have records : (ids.zipWith Record.mk geometries).toArray.size = ids.length := by
    rw [List.size_toArray, List.length_zipWith, same, Nat.min_self]
  have count : Size.divCeil (ids.zipWith Record.mk geometries).toArray.size c.config.chunkSize =
      c.chunkCount ids := by rw [records, chunkCount]
  have positive : 0 < c.config.prefetchWindow c.pool.threads := by
    unfold Config.prefetchWindow
    split <;> omega
  refine ⟨_, c.stream_eq_ok sized compacted valid same,
    Stream.running_nil _ _ positive (by rwa [records]), count, rfl, fun i result => ?_,
    fun pool pairs => ?_⟩
  · rw [Stream.chunkResult_eq_some_iff (by rwa [records]), ← count]
    rfl
  · rw [pairs_eq_batch { c with pool } sized compacted valid same]
    exact Indexing.batch_eq_ok_iff pool

end Open

/-- The answers of a stream. If all chunks succeed they are the results of the chunks in
order and then nothing, and the results together are the conversion of the whole
batch. If the chunk `k` is the first that fails they are the results of the windows
before the one of `k`, the failure of a chunk of that window, and then nothing; the
conversion of the whole batch fails too. A stream does not end before, and every
result that it gives out is that of the chunk whose turn it is. -/
theorem stream_answers (c : Converter) (sized : 0 < c.config.chunkSize) (ids : List UInt64)
    (geometries : List (List UInt8)) (bounded : ids.length < Size.bound) (resolution : Nat)
    (valid : resolution ≤ 15) (same : ids.length = geometries.length) (compacted : Bool) :
    ∃ s, c.stream ids geometries resolution compacted = .ok s ∧
      ((∀ i < c.chunkCount ids, ∃ pairs,
          c.chunkResult ids geometries resolution compacted i = .ok pairs) →
        ∃ results : List Pairs, results.length = c.chunkCount ids ∧
          (∀ i (_ : i < results.length),
            c.chunkResult ids geometries resolution compacted i = .ok results[i]) ∧
          (∀ i, s.answer i = results[i]?.map .ok) ∧
          ∀ pool : WorkerPool, ({ c with pool } : Converter).pairs ids geometries resolution
            compacted = .ok results.flatten) ∧
      (∀ k < c.chunkCount ids,
        (∀ i < k, ∃ pairs, c.chunkResult ids geometries resolution compacted i = .ok pairs) →
        (∃ e, c.chunkResult ids geometries resolution compacted k = .error e) →
        ∃ (results : List Pairs) (e : ConversionError),
          results.length = k / c.config.prefetchWindow c.pool.threads *
            c.config.prefetchWindow c.pool.threads ∧
          (∀ i (_ : i < results.length),
            c.chunkResult ids geometries resolution compacted i = .ok results[i]) ∧
          (∃ i, results.length ≤ i ∧
            i < results.length + c.config.prefetchWindow c.pool.threads ∧
            i < c.chunkCount ids ∧
            c.chunkResult ids geometries resolution compacted i = .error e) ∧
          (∀ i, s.answer i = (results.map .ok ++ [.error e])[i]?) ∧
          ∀ pool : WorkerPool, ∃ e', ({ c with pool } : Converter).pairs ids geometries resolution
            compacted = .error e') ∧
      (∀ i, s.answer i = none → (∃ j < i, ∃ e, s.answer j = some (.error e)) ∨
        ∀ j < c.chunkCount ids, j < i ∧ ∃ pairs, s.answer j = some (.ok pairs)) ∧
      ∀ i pairs, s.answer i = some (.ok pairs) →
        i < c.chunkCount ids ∧
          c.chunkResult ids geometries resolution compacted i = .ok pairs := by
  obtain ⟨s, opened, running, count, window, chunk, whole⟩ :=
    c.exists_stream sized compacted valid same bounded
  refine ⟨s, opened, fun good => ?_, fun k inside good failed => ?_, fun i nothing => ?_,
    fun i pairs item => (chunk i _).mp (running.chunkResult_of_answer item)⟩
  · obtain ⟨results, length, traversed, chunks, answers⟩ := running.answers_of_ok fun i inside => by
      have inside := Nat.lt_of_lt_of_eq inside count
      obtain ⟨pairs, succeeded⟩ := good i inside
      exact ⟨pairs, (chunk i _).mpr ⟨inside, succeeded⟩⟩
    exact ⟨results, length.trans count, fun i early => ((chunk i _).mp (chunks i early)).2, answers,
      fun pool => (whole pool _).mpr ⟨results, traversed, rfl⟩⟩
  · obtain ⟨failure, failed⟩ := failed
    have failed := (chunk k (.error failure)).mpr ⟨inside, failed⟩
    obtain ⟨results, e, length, chunks, ⟨i, first, last, error⟩, answers⟩ :=
      running.answers_of_failure (fun i earlier => by
        obtain ⟨pairs, succeeded⟩ := good i earlier
        exact ⟨pairs, (chunk i _).mpr ⟨Nat.lt_trans earlier inside, succeeded⟩⟩) failed
    rw [window] at length last
    refine ⟨results, e, length, fun j early => ((chunk j _).mp (chunks j early)).2,
      ⟨i, first, last, (chunk i _).mp error⟩, answers, fun pool => ?_⟩
    cases outcome : ({ c with pool } : Converter).pairs ids geometries resolution compacted with
    | error e' => exact ⟨e', rfl⟩
    | ok pairs =>
      obtain ⟨all, traversed, _⟩ := (whole pool pairs).mp outcome
      exact absurd traversed (Stream.mapM_chunks_ne_ok running.bounded failed all)
  · rw [← count]
    exact running.of_answer_eq_none nothing

/-- Four chunks in windows of two, the last of which fails: the result of the third one
is not given out. -/
theorem stream_answers_toy :
    ∃ s, (Converter.mk Toy.indexer { chunkSize := 1, prefetchChunks := 2 } (.build 1 0)).stream
        [5, 9, 5, 7] [[2], [1], [1], [255]] 3 false = .ok s ∧
      s.answer 0 = some (.ok [(5, Toy.recordCell 5 3 0), (5, Toy.recordCell 5 3 1)]) ∧
      s.answer 1 = some (.ok [(9, Toy.recordCell 9 3 0)]) ∧
      (∃ e, s.answer 2 = some (.error e)) ∧ s.answer 3 = none := by
  obtain ⟨s, opened, _, failing, _⟩ := stream_answers
    (Converter.mk Toy.indexer { chunkSize := 1, prefetchChunks := 2 } (.build 1 0)) (by decide)
    [5, 9, 5, 7] [[2], [1], [1], [255]] (by decide) 3 (by decide) rfl false
  obtain ⟨results, e, length, chunks, _, answers, _⟩ := failing 3 (by decide)
    (fun i inside => by interval_cases i <;> exact ⟨_, rfl⟩) ⟨_, rfl⟩
  obtain ⟨first, second, rfl⟩ := List.length_eq_two.mp length
  have head := (chunks 0 (by simp)).symm
  have next := (chunks 1 (by simp)).symm
  refine ⟨s, opened, (answers 0).trans ?_, (answers 1).trans ?_, ⟨e, answers 2⟩, answers 3⟩
  · exact congrArg some head
  · exact congrArg some next

end Converter

end HexCover.Vector
