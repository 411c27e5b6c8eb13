import HexCover.Proofs.Vector.Convert
import HexCover.Vector.Stream

/-! One request to a stream. A stream that has not failed holds the results of the
first chunks: those it gave out, and behind them those it still has. A request takes
the first of these. If there is none it computes the next window, which gives the
results of that window or the failure of one of its chunks. -/
namespace HexCover.Vector.Stream

def chunkResult (s : Stream) (index : Nat) : Option (Except ConversionError Pairs) :=
  (s.batch.chunk? index).map s.indexing.chunk

theorem lt_numChunks_of_chunkResult {s : Stream} {i : Nat} {result : Except ConversionError Pairs}
    (h : s.chunkResult i = some result) : i < s.numChunks := by
  by_contra outside
  simp [chunkResult, Batch.chunk?_eq_none (Nat.le_of_not_lt outside)] at h

theorem chunkResult_eq_some_iff {s : Stream} (bounded : s.batch.records.size < Size.bound) {i : Nat}
    {result : Except ConversionError Pairs} : s.chunkResult i = some result ↔
      i < s.numChunks ∧ s.indexing.chunk (s.batch.piece i) = result := by
  constructor
  · intro h
    have inside := lt_numChunks_of_chunkResult h
    rw [chunkResult, Batch.chunk?_eq_piece bounded inside] at h
    exact ⟨inside, Option.some.inj h⟩
  · rintro ⟨inside, rfl⟩
    rw [chunkResult, Batch.chunk?_eq_piece bounded inside, Option.map_some]

theorem mapM_chunks_ne_ok {s : Stream} (bounded : s.batch.records.size < Size.bound) {k : Nat}
    {e : ConversionError} (failed : s.chunkResult k = some (.error e)) (results : List Pairs) :
    s.batch.chunks.mapM s.indexing.chunk ≠ .ok results := by
  intro traversed
  obtain ⟨length, each⟩ := Indexing.getElem_of_mapM_chunksIn bounded (Nat.le_refl _) traversed
  have succeeded := each k (Nat.lt_of_lt_of_eq (lt_numChunks_of_chunkResult failed) length.symm)
  rw [← chunkResult, failed] at succeeded
  simp at succeeded

theorem next_of_buffered {s : Stream} {pairs : Pairs} {rest : List Pairs}
    (h : s.buffered = pairs :: rest) :
    s.next = (some (.ok pairs), { s with buffered := rest }) := by
  simp only [next, pop, h]

theorem next_of_finished {s : Stream} (empty : s.buffered = [])
    (h : s.done = true ∨ s.numChunks ≤ s.nextChunk) : s.next = (none, { s with done := true }) := by
  have stop : (s.done || decide (s.numChunks ≤ s.nextChunk)) = true := by simpa using h
  simp only [next, pop, empty, stop, if_true]

section Refill

variable {s : Stream} (empty : s.buffered = []) (going : s.done = false)
  (more : s.nextChunk < s.numChunks)

include empty going more

theorem next_of_refill_error {e : ConversionError}
    (h : s.indexing.window s.pool s.batch s.nextChunk s.windowEnd = .error e) :
    s.next = (some (.error e), { s with done := true }) := by
  have go : (s.done || decide (s.numChunks ≤ s.nextChunk)) = false := by simp [going, more]
  have refill : s.refill = .error e := by
    rw [refill, h]
    rfl
  simp only [next, pop, empty, go, refill, Bool.false_eq_true, if_false]

theorem next_of_refill_ok {results : List Pairs}
    (h : s.indexing.window s.pool s.batch s.nextChunk s.windowEnd = .ok results) :
    s.next = (results.head?.map .ok,
      { s with nextChunk := s.windowEnd, buffered := results.tail }) := by
  have go : (s.done || decide (s.numChunks ≤ s.nextChunk)) = false := by simp [going, more]
  have refill : s.refill = .ok { s with nextChunk := s.windowEnd, buffered := results } := by
    rw [refill, h, empty]
    rfl
  cases results <;> simp only [next, pop, empty, go, refill, Bool.false_eq_true, if_false,
    Option.map_some, Option.map_none, List.head?_cons, List.head?_nil, List.tail_cons,
    List.tail_nil]

end Refill

theorem next_keeps (s : Stream) : ∃ nextChunk buffered done,
    s.next.2 = { s with nextChunk := nextChunk, buffered := buffered, done := done } := by
  cases buffer : s.buffered with
  | cons pairs rest => exact ⟨_, _, _, by rw [next_of_buffered buffer]⟩
  | nil =>
    by_cases finished : s.done = true ∨ s.numChunks ≤ s.nextChunk
    · exact ⟨_, _, _, by rw [next_of_finished buffer finished]⟩
    · obtain ⟨going, more⟩ := not_or.mp finished
      have going := eq_false_of_ne_true going
      have more := Nat.lt_of_not_le more
      cases computed : s.indexing.window s.pool s.batch s.nextChunk s.windowEnd with
      | error e => exact ⟨_, _, _, by rw [next_of_refill_error buffer going more computed]⟩
      | ok results => exact ⟨_, _, _, by rw [next_of_refill_ok buffer going more computed]⟩

/-- Windows are computed one after the other, and at most one is held. -/
structure Paced (s : Stream) : Prop where
  within : s.nextChunk ≤ s.numChunks
  aligned : s.window ∣ s.nextChunk ∨ s.nextChunk = s.numChunks
  ahead : s.buffered.length ≤ s.window

/-- A stream that has given out the results `given` and has not failed. -/
structure Running (given : List Pairs) (s : Stream) : Prop extends Paced s where
  positive : 0 < s.window
  bounded : s.batch.records.size < Size.bound
  results : (s.batch.chunksIn 0 s.nextChunk).mapM s.indexing.chunk = .ok (given ++ s.buffered)
  ended : s.done = true → s.nextChunk = s.numChunks ∧ s.buffered = []

/-- A stream that gives out nothing more. -/
structure Ended (s : Stream) : Prop extends Paced s where
  done : s.done = true
  empty : s.buffered = []

theorem Ended.next {s : Stream} (h : s.Ended) : s.next = (none, s) := by
  rw [next_of_finished h.empty (.inl h.done)]
  obtain ⟨_, _, _, _, _, _, _⟩ := s
  obtain rfl := h.done
  rfl

theorem Ended.remaining {s : Stream} (h : s.Ended) : s.remaining = 0 := by
  rw [Stream.remaining, h.done, if_pos rfl]

/-- At the start of a window the sum of the computed chunks and a window is a size. It
is a window or less than twice the number of chunks. -/
theorem Paced.add_window_lt {s : Stream} (h : s.Paced) (window : s.window < Size.bound)
    (chunks : s.numChunks ≤ Size.bound / 2) (more : s.nextChunk < s.numChunks) :
    s.nextChunk + s.window < Size.bound := by
  have aligned := h.aligned.resolve_right (Nat.ne_of_lt more)
  rcases Nat.eq_zero_or_pos s.nextChunk with start | later
  · omega
  · have le := Nat.le_of_dvd later aligned
    omega

theorem Paced.aligned_windowEnd {s : Stream} (h : s.Paced) (more : s.nextChunk < s.numChunks) :
    s.window ∣ s.windowEnd ∨ s.windowEnd = s.numChunks := by
  have aligned := h.aligned.resolve_right (Nat.ne_of_lt more)
  rcases Nat.le_total (s.nextChunk + s.window) s.numChunks with inner | beyond
  · left
    rw [windowEnd, Nat.min_eq_left inner]
    exact Nat.dvd_add aligned (Nat.dvd_refl _)
  · right
    exact Nat.min_eq_right beyond

/-- With a chunk all chunks of its window and of those before are computed. -/
theorem Paced.lt_nextChunk {s : Stream} (h : s.Paced) (positive : 0 < s.window) {i k : Nat}
    (computed : k < s.nextChunk) (inside : i < s.numChunks)
    (same : i / s.window ≤ k / s.window) : i < s.nextChunk := by
  rcases h.aligned with ⟨windows, whole⟩ | last
  · rw [whole, Nat.mul_comm, ← Nat.div_lt_iff_lt_mul positive] at computed ⊢
    exact Nat.lt_of_le_of_lt same computed
  · rw [last]
    exact inside

theorem running_nil (x : Indexing) (pool : WorkerPool) {b : Batch} {window : Nat}
    (positive : 0 < window) (bounded : b.records.size < Size.bound) :
    Running [] { indexing := x, pool := pool, batch := b, window := window } :=
  ⟨⟨Nat.zero_le _, .inl (Nat.dvd_zero _), Nat.zero_le _⟩, positive, bounded, rfl, nofun⟩

namespace Running

variable {given : List Pairs} {s : Stream} (h : Running given s)

include h

theorem length_add : given.length + s.buffered.length = s.nextChunk := by
  rw [← List.length_append]
  exact (Indexing.getElem_of_mapM_chunksIn h.bounded h.within h.results).1

theorem chunkResult_given {i : Nat} (inside : i < given.length) :
    s.chunkResult i = some (.ok given[i]) := by
  have result := (Indexing.getElem_of_mapM_chunksIn h.bounded h.within h.results).2 i
    (by rw [List.length_append]; omega)
  rwa [List.getElem_append_left inside] at result

theorem chunkResult_ok {i : Nat} (computed : i < s.nextChunk) :
    ∃ pairs, s.chunkResult i = some (.ok pairs) :=
  ⟨_, (Indexing.getElem_of_mapM_chunksIn h.bounded h.within h.results).2 i
    (by rw [List.length_append, h.length_add]; exact computed)⟩

theorem remaining : s.remaining = s.numChunks - given.length := by
  have length := h.length_add
  have within := h.within
  rw [Stream.remaining]
  split
  · next done =>
    obtain ⟨last, empty⟩ := h.ended done
    rw [empty, List.length_nil] at length
    omega
  · omega

theorem next_of_buffered {pairs : Pairs} {rest : List Pairs} (buffer : s.buffered = pairs :: rest) :
    Running (given ++ [pairs]) { s with buffered := rest } := by
  have ahead := h.ahead
  rw [buffer, List.length_cons] at ahead
  refine ⟨⟨h.within, h.aligned, Nat.le_of_succ_le ahead⟩, h.positive, h.bounded, ?_, ?_⟩
  · simpa [buffer] using h.results
  · intro done
    simpa [buffer] using (h.ended done).2

theorem next_of_finished (empty : s.buffered = [])
    (finished : s.done = true ∨ s.numChunks ≤ s.nextChunk) :
    given.length = s.numChunks ∧ Running given { s with done := true } := by
  have last : s.nextChunk = s.numChunks :=
    finished.elim (fun done => (h.ended done).1) (Nat.le_antisymm h.within)
  have length := h.length_add
  rw [empty, List.length_nil, Nat.add_zero] at length
  exact ⟨length.trans last, ⟨h.within, h.aligned, h.ahead⟩, h.positive, h.bounded, h.results,
    fun _ => ⟨last, empty⟩⟩

/-- The results of a window go behind those of the windows before it. -/
theorem next_of_refill (empty : s.buffered = []) (going : s.done = false)
    (more : s.nextChunk < s.numChunks) {results : List Pairs}
    (computed : s.indexing.window s.pool s.batch s.nextChunk s.windowEnd = .ok results) :
    ∃ pairs rest, results = pairs :: rest ∧
      Running (given ++ [pairs]) { s with nextChunk := s.windowEnd, buffered := rest } := by
  have positive := h.positive
  have forward : s.nextChunk < s.windowEnd := by unfold windowEnd; omega
  have near : s.windowEnd ≤ s.nextChunk + s.window := Nat.min_le_left _ _
  have within : s.windowEnd ≤ s.numChunks := Nat.min_le_right _ _
  have traversed : (s.batch.chunksIn s.nextChunk s.windowEnd).mapM s.indexing.chunk =
      .ok results := s.pool.collect_map_eq_ok_iff.mp computed
  have all : (s.batch.chunksIn 0 s.windowEnd).mapM s.indexing.chunk = .ok (given ++ results) := by
    rw [← Batch.chunksIn_append h.bounded (Nat.zero_le _) (Nat.le_of_lt forward), List.mapM_append,
      h.results, traversed, empty, List.append_nil]
    rfl
  have before := h.length_add
  have total := (Indexing.getElem_of_mapM_chunksIn h.bounded within all).1
  rw [empty, List.length_nil] at before
  rw [List.length_append] at total
  cases results with
  | nil =>
    rw [List.length_nil] at total
    omega
  | cons pairs rest =>
    rw [List.length_cons] at total
    refine ⟨pairs, rest, rfl, ⟨within, h.aligned_windowEnd more, ?_⟩, positive, h.bounded,
      by simpa using all, ?_⟩
    · show rest.length ≤ s.window
      omega
    · intro done
      simp [going] at done

/-- A request gives out the next result, or finds that there is none, or fails with a
chunk of the window that starts there. -/
theorem next_cases :
    (∃ pairs, s.next.1 = some (.ok pairs) ∧ Running (given ++ [pairs]) s.next.2) ∨
    (s.next.1 = none ∧ given.length = s.numChunks ∧ Running given s.next.2) ∨
    (∃ e, s.next.1 = some (.error e) ∧ s.window ∣ given.length ∧
      (∃ i, given.length ≤ i ∧ i < given.length + s.window ∧ s.chunkResult i = some (.error e)) ∧
      s.next.2.Ended) := by
  cases buffer : s.buffered with
  | cons pairs rest =>
    rw [Stream.next_of_buffered buffer]
    exact .inl ⟨pairs, rfl, h.next_of_buffered buffer⟩
  | nil =>
    by_cases finished : s.done = true ∨ s.numChunks ≤ s.nextChunk
    · rw [Stream.next_of_finished buffer finished]
      exact .inr (.inl ⟨rfl, h.next_of_finished buffer finished⟩)
    · obtain ⟨going, more⟩ := not_or.mp finished
      have going := eq_false_of_ne_true going
      have more := Nat.lt_of_not_le more
      cases computed : s.indexing.window s.pool s.batch s.nextChunk s.windowEnd with
      | ok results =>
        obtain ⟨pairs, rest, rfl, next⟩ := h.next_of_refill buffer going more computed
        rw [next_of_refill_ok buffer going more computed]
        exact .inl ⟨pairs, rfl, next⟩
      | error e =>
        have length := h.length_add
        rw [buffer, List.length_nil, Nat.add_zero] at length
        obtain ⟨c, member, failed⟩ := WorkerPool.collect_map_eq_error computed
        obtain ⟨i, first, last, _, chunk⟩ := Batch.exists_of_mem_chunksIn h.bounded member
        rw [windowEnd] at last
        rw [next_of_refill_error buffer going more computed]
        refine .inr (.inr ⟨e, rfl, ?_, ⟨i, by omega, by omega, ?_⟩, ?_⟩)
        · rw [length]
          exact h.aligned.resolve_right (Nat.ne_of_lt more)
        · rw [chunkResult, chunk, Option.map_some, failed]
        · exact ⟨⟨h.within, h.aligned, h.ahead⟩, rfl, buffer⟩

end Running

end HexCover.Vector.Stream
