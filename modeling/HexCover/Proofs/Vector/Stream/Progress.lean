import HexCover.Proofs.Vector.Stream.Open

/-! How far a stream has come. In every state the chunks that are computed are those given
out and those held, a whole number of windows up to the last chunk, and no more than
one window is held. The items to come are at least the results held and at most the
chunks not given out. -/
namespace HexCover.Vector

namespace Stream

theorem answer_succ (s : Stream) (count : Nat) : s.answer (count + 1) = s.next.2.answer count := by
  rw [Nat.add_comm, ← answer_after]
  rfl

theorem answer_of_buffered {s : Stream} {i : Nat} {pairs : Pairs}
    (h : s.buffered[i]? = some pairs) : s.answer i = some (.ok pairs) := by
  cases buffer : s.buffered with
  | nil => simp [buffer] at h
  | cons first rest =>
    induction i generalizing s first rest with
    | zero =>
      show s.next.1 = _
      rw [buffer, List.getElem?_cons_zero] at h
      rw [next_of_buffered buffer, Option.some.inj h]
    | succ i ih =>
      rw [buffer, List.getElem?_cons_succ] at h
      rw [answer_succ, next_of_buffered buffer]
      cases rest with
      | nil => simp at h
      | cons second rest => exact ih h second rest rfl

namespace Running

variable {s : Stream} (h : Running [] s)

include h

theorem paced_after (count : Nat) : (s.after count).Paced := by
  obtain ⟨_, running⟩ | ⟨_, ended⟩ := h.after_cases count
  · exact running.toPaced
  · exact ended.toPaced

/-- The items of a stream are at most as many as the chunks, and fewer only if a chunk
fails. -/
theorem exists_items : ∃ items : List (Except ConversionError Pairs),
    (∀ i, s.answer i = items[i]?) ∧ items.length ≤ s.numChunks ∧
      (items.length = s.numChunks ∨ ∃ k e, s.chunkResult k = some (.error e)) := by
  by_cases good : ∀ i < s.numChunks, ∃ pairs, s.chunkResult i = some (.ok pairs)
  · obtain ⟨results, length, _, _, answers⟩ := h.answers_of_ok good
    refine ⟨results.map .ok, fun i => ?_, ?_, .inl ?_⟩
    · rw [answers, List.getElem?_map]
    · rw [List.length_map, length]
    · rw [List.length_map, length]
  · obtain ⟨k, e, before, failed⟩ := h.exists_first_failure good
    obtain ⟨results, e', length, _, _, answers⟩ := h.answers_of_failure before failed
    have inside := lt_numChunks_of_chunkResult failed
    have start : results.length ≤ k := length ▸ Nat.div_mul_le_self _ _
    refine ⟨results.map .ok ++ [.error e'], answers, ?_, .inr ⟨k, e, failed⟩⟩
    rw [List.length_append, List.length_map, List.length_singleton]
    omega

theorem remaining_after {count : Nat} (healthy : s.Healthy count) :
    (s.after count).remaining = s.numChunks - count := by
  rw [(h.after healthy).remaining, numChunks_after, h.length_given healthy]
  omega

theorem numChunks_le_of_answer_eq_none {count i : Nat} (healthy : s.Healthy count)
    (inside : i < count) (nothing : s.answer i = none) : s.numChunks ≤ count := by
  obtain ⟨j, earlier, e, failed⟩ | given := h.of_answer_eq_none nothing
  · exact absurd failed (healthy j (Nat.lt_trans earlier inside) e)
  · by_contra fewer
    exact Nat.lt_irrefl _ (given i (by omega)).1

/-- The number of items to come in a state, between the bounds that the state reports. -/
theorem exists_total (count : Nat) : ∃ total,
    (∀ i, (∃ item, (s.after count).answer i = some item) ↔ i < total) ∧
      (s.after count).sizeHint.1 ≤ total ∧ total ≤ (s.after count).sizeHint.2 ∧
      ((∀ i, (s.after count).nextChunk ≤ i → ∀ e, s.chunkResult i ≠ some (.error e)) →
        (s.after count).remaining = total) ∧
      ((∃ i < count, s.answer i = none ∨ ∃ e, s.answer i = some (.error e)) ∨
        s.numChunks ≤ count → (s.after count).remaining = 0 ∧ total = 0) := by
  obtain ⟨items, answers, most, all⟩ := h.exists_items
  have coming (i : Nat) :
      (∃ item, (s.after count).answer i = some item) ↔ i < items.length - count := by
    rw [answer_after, answers, ← Option.isSome_iff_exists, isSome_getElem?]
    omega
  refine ⟨items.length - count, coming, ?_⟩
  obtain ⟨healthy, running⟩ | ⟨_, ended⟩ := h.after_cases count
  · simp only [sizeHint, h.remaining_after healthy]
    refine ⟨?_, by omega, fun sound => ?_, ?_⟩
    · by_contra fewer
      have held : items.length - count < (s.after count).buffered.length := Nat.lt_of_not_le fewer
      have item := answer_of_buffered (List.getElem?_eq_getElem held)
      exact Nat.lt_irrefl _ ((coming _).mp ⟨_, item⟩)
    · rcases all with all | ⟨k, e, failed⟩
      · rw [all]
      · -- the failing chunk is not computed yet
        have later : (s.after count).nextChunk ≤ k := by
          by_contra computed
          obtain ⟨pairs, succeeded⟩ := running.chunkResult_ok (Nat.lt_of_not_le computed)
          rw [chunkResult_after, failed] at succeeded
          simp at succeeded
        exact absurd failed (sound k later e)
    · intro spent
      have all : s.numChunks ≤ count := by
        obtain ⟨i, inside, nothing | ⟨e, failed⟩⟩ | all := spent
        · exact h.numChunks_le_of_answer_eq_none healthy inside nothing
        · exact absurd failed (healthy i inside e)
        · exact all
      omega
  · have spent : items.length - count = 0 := by
      by_contra more
      obtain ⟨item, some⟩ := (coming 0).mpr (Nat.pos_of_ne_zero more)
      simp [ended.answer] at some
    simp only [sizeHint, ended.remaining, ended.empty, spent, List.length_nil, Nat.le_refl,
      true_and, implies_true]

end Running

end Stream

namespace Converter

theorem chunkCount_le (c : Converter) (sized : 0 < c.config.chunkSize) (ids : List UInt64) :
    c.chunkCount ids ≤ ids.length := by
  refine Nat.le_of_not_lt fun more => ?_
  have start := (Size.lt_divCeil_iff sized).mp more
  exact absurd (Nat.le_mul_of_pos_right ids.length sized) (Nat.not_le.mpr start)

/-- The state of a stream after any number of requests. The chunks computed so far are
whole windows or all chunks; before an error they are the chunks given out and those
held. No more than a window is held, and the sum that bounds the next window is a
size. The items to come number at least the chunks held and at most the chunks that
remain; they are exactly those that remain if no chunk that is still to be computed
fails, and none after an error, after the end, and when all chunks were given out. -/
theorem stream_progress (c : Converter) (sized : 0 < c.config.chunkSize) (ids : List UInt64)
    (geometries : List (List UInt8)) (bounded : ids.length < 2 ^ 63)
    (prefetch : c.config.prefetchChunks < Size.bound) (workers : c.pool.threads < Size.bound)
    (resolution : Nat) (valid : resolution ≤ 15) (same : ids.length = geometries.length)
    (compacted : Bool) :
    ∃ s, c.stream ids geometries resolution compacted = .ok s ∧
      ∀ count, (s.after count).numChunks = c.chunkCount ids ∧
        (s.after count).window = c.config.prefetchWindow c.pool.threads ∧
        (s.after count).nextChunk ≤ (s.after count).numChunks ∧
        ((s.after count).window ∣ (s.after count).nextChunk ∨
          (s.after count).nextChunk = (s.after count).numChunks) ∧
        ((∀ i < count, ∀ e, s.answer i ≠ some (.error e)) →
          (s.given count).length + (s.after count).buffered.length = (s.after count).nextChunk) ∧
        (s.after count).buffered.length ≤ (s.after count).window ∧
        ((s.after count).nextChunk < (s.after count).numChunks →
          (s.after count).nextChunk + (s.after count).window < Size.bound) ∧
        ∃ total, (∀ i, (∃ item, (s.after count).answer i = some item) ↔ i < total) ∧
          (s.after count).sizeHint.1 ≤ total ∧ total ≤ (s.after count).sizeHint.2 ∧
          ((∀ i, (s.after count).nextChunk ≤ i → i < c.chunkCount ids →
              ∃ pairs, c.chunkResult ids geometries resolution compacted i = .ok pairs) →
            (s.after count).remaining = total) ∧
          ((∃ i < count, s.answer i = none ∨ ∃ e, s.answer i = some (.error e)) ∨
            c.chunkCount ids ≤ count → (s.after count).remaining = 0 ∧ total = 0) := by
  have sizes : ids.length < Size.bound := Nat.lt_trans bounded (by decide)
  obtain ⟨s, opened, running, chunks, width, chunk, _⟩ :=
    c.exists_stream sized compacted valid same sizes
  refine ⟨s, opened, fun count => ?_⟩
  have paced := running.paced_after count
  have window : s.window < Size.bound := by
    rw [width, Config.prefetchWindow]
    split
    · exact prefetch
    · exact Nat.max_lt.mpr ⟨by decide, workers⟩
  have number : s.numChunks ≤ Size.bound / 2 := by
    have most := c.chunkCount_le sized ids
    have half : Size.bound / 2 = 2 ^ 63 := rfl
    omega
  obtain ⟨total, coming, least, most, exact, spent⟩ := running.exists_total count
  refine ⟨by rw [Stream.numChunks_after, chunks], by rw [Stream.window_after, width], paced.within,
    paced.aligned, fun healthy => (running.after healthy).length_add, paced.ahead, ?_, total,
    coming, least, most, fun sound => exact fun i later e failed => ?_, ?_⟩
  · exact paced.add_window_lt (by rwa [Stream.window_after]) (by rwa [Stream.numChunks_after])
  · obtain ⟨inside, failed⟩ := (chunk i _).mp failed
    obtain ⟨pairs, succeeded⟩ := sound i later inside
    simp [failed] at succeeded
  · rwa [← chunks]

/-- Four chunks in a window of the largest size: it can be computed, nothing remains after
four requests, and the hint after one is the number of items to come. -/
theorem stream_progress_toy :
    ∃ s, (Converter.mk Toy.indexer { chunkSize := 1, prefetchChunks := 2 ^ 64 - 1 }
        (.build 1 0)).stream [5, 9, 5, 7] [[2], [1], [1], [3]] 3 false = .ok s ∧
      s.nextChunk + s.window < Size.bound ∧ (s.after 4).remaining = 0 ∧
      ∃ total, (s.after 1).remaining = total ∧
        ∀ i, (∃ item, (s.after 1).answer i = some item) ↔ i < total := by
  obtain ⟨s, opened, states⟩ := stream_progress
    (Converter.mk Toy.indexer { chunkSize := 1, prefetchChunks := 2 ^ 64 - 1 } (.build 1 0))
    (by decide) [5, 9, 5, 7] [[2], [1], [1], [3]] (by decide) (by decide) (by decide) 3
    (by decide) rfl false
  obtain ⟨_, _, _, _, _, _, fits, _⟩ := states 0
  obtain ⟨_, _, _, _, _, _, _, total, coming, _, _, exact, _⟩ := states 1
  obtain ⟨_, _, _, _, _, _, _, _, _, _, _, _, spent⟩ := states 4
  have start : s.nextChunk < s.numChunks := by
    cases opened
    decide
  refine ⟨s, opened, fits start, (spent (.inr (by decide))).1, total, exact fun i _ inside => ?_,
    coming⟩
  have inside : i < 4 := inside
  interval_cases i <;> exact ⟨_, rfl⟩

end Converter

end HexCover.Vector
