import HexCover.Proofs.Vector.Stream.Step
import Mathlib.Data.Nat.Find
import Mathlib.Logic.Function.Iterate

/-! All answers of a stream. They are the results of the chunks in order and then nothing,
if every chunk succeeds. Otherwise they are the results of the windows before the one
with the first failing chunk, then the failure of a chunk of that window, and then
nothing. -/
namespace HexCover.Vector

namespace Stream

def after (s : Stream) (count : Nat) : Stream := (fun s => s.next.2)^[count] s

/-- The answer to the request that comes after `count` others. -/
def answer (s : Stream) (count : Nat) : Option (Except ConversionError Pairs) :=
  (s.after count).next.1

/-- The results among the first `count` answers. -/
def given (s : Stream) (count : Nat) : List Pairs :=
  (List.range count).filterMap fun i => (s.answer i).bind Except.toOption

theorem after_succ (s : Stream) (count : Nat) : s.after (count + 1) = (s.after count).next.2 :=
  Function.iterate_succ_apply' _ _ _

theorem after_after (s : Stream) (m n : Nat) : (s.after m).after n = s.after (m + n) := by
  rw [after, after, after, ← Function.iterate_add_apply, Nat.add_comm]

theorem answer_after (s : Stream) (m n : Nat) : (s.after m).answer n = s.answer (m + n) := by
  rw [answer, answer, after_after]

theorem after_keeps (s : Stream) (count : Nat) : ∃ nextChunk buffered done,
    s.after count = { s with nextChunk := nextChunk, buffered := buffered, done := done } := by
  induction count with
  | zero => exact ⟨_, _, _, rfl⟩
  | succ count ih =>
    obtain ⟨_, _, _, before⟩ := ih
    obtain ⟨_, _, _, last⟩ := (s.after count).next_keeps
    rw [after_succ, last, before]
    exact ⟨_, _, _, rfl⟩

theorem chunkResult_after (s : Stream) (count i : Nat) :
    (s.after count).chunkResult i = s.chunkResult i := by
  obtain ⟨_, _, _, same⟩ := s.after_keeps count
  rw [same]
  rfl

theorem numChunks_after (s : Stream) (count : Nat) : (s.after count).numChunks = s.numChunks := by
  obtain ⟨_, _, _, same⟩ := s.after_keeps count
  rw [same]
  rfl

theorem window_after (s : Stream) (count : Nat) : (s.after count).window = s.window := by
  obtain ⟨_, _, _, same⟩ := s.after_keeps count
  rw [same]

theorem given_succ (s : Stream) (count : Nat) :
    s.given (count + 1) = s.given count ++ ((s.answer count).bind Except.toOption).toList := by
  rw [given, List.range_succ, List.filterMap_append, ← given]
  cases h : (s.answer count).bind Except.toOption <;> simp [h]

/-- No error is among the first `count` answers. -/
def Healthy (s : Stream) (count : Nat) : Prop := ∀ i < count, ∀ e, s.answer i ≠ some (.error e)

theorem Healthy.mono {s : Stream} {m n : Nat} (h : s.Healthy n) (le : m ≤ n) : s.Healthy m :=
  fun i inside => h i (Nat.lt_of_lt_of_le inside le)

theorem healthy_succ_iff {s : Stream} {count : Nat} :
    s.Healthy (count + 1) ↔ s.Healthy count ∧ ∀ e, s.answer count ≠ some (.error e) := by
  constructor
  · exact fun h => ⟨h.mono (Nat.le_succ _), h count (Nat.lt_succ_self _)⟩
  · rintro ⟨before, last⟩ i inside
    rcases Nat.lt_succ_iff_lt_or_eq.mp inside with earlier | rfl
    · exact before i earlier
    · exact last

theorem Ended.after {s : Stream} (h : s.Ended) (count : Nat) : s.after count = s := by
  induction count with
  | zero => rfl
  | succ count ih => rw [after_succ, ih, h.next]

theorem Ended.answer {s : Stream} (h : s.Ended) (count : Nat) : s.answer count = none := by
  rw [Stream.answer, h.after, h.next]

namespace Running

variable {s : Stream} (h : Running [] s)

include h

/-- Every state is that of a stream that has given out what its answers say, or of one
that has failed. -/
theorem after_cases (count : Nat) :
    (s.Healthy count ∧ Running (s.given count) (s.after count)) ∨
    ((∃ i < count, ∃ e, s.answer i = some (.error e)) ∧ (s.after count).Ended) := by
  induction count with
  | zero => exact .inl ⟨fun i inside => absurd inside (Nat.not_lt_zero i), h⟩
  | succ count ih =>
    rw [after_succ]
    obtain ⟨healthy, running⟩ | ⟨⟨i, inside, failed⟩, ended⟩ := ih
    · rw [given_succ, healthy_succ_iff]
      obtain ⟨pairs, item, next⟩ | ⟨item, _, next⟩ | ⟨e, item, _, _, ended⟩ := running.next_cases
      · rw [answer, item]
        exact .inl ⟨⟨healthy, nofun⟩, next⟩
      · rw [answer, item]
        exact .inl ⟨⟨healthy, nofun⟩, by simpa using next⟩
      · exact .inr ⟨⟨count, Nat.lt_succ_self _, e, item⟩, ended⟩
    · rw [ended.next]
      exact .inr ⟨⟨i, Nat.lt_succ_of_lt inside, failed⟩, ended⟩

theorem after {count : Nat} (healthy : s.Healthy count) :
    Running (s.given count) (s.after count) := by
  obtain ⟨_, running⟩ | ⟨⟨i, inside, e, failed⟩, _⟩ := h.after_cases count
  · exact running
  · exact absurd failed (healthy i inside e)

theorem length_given {count : Nat} (healthy : s.Healthy count) :
    (s.given count).length = min count s.numChunks := by
  induction count with
  | zero => simp [given]
  | succ count ih =>
    obtain ⟨earlier, last⟩ := healthy_succ_iff.mp healthy
    have before := ih earlier
    rw [given_succ]
    obtain ⟨pairs, item, next⟩ | ⟨item, all, _⟩ | ⟨e, item, _⟩ := (h.after earlier).next_cases
    · have length := next.length_add
      have within := next.within
      rw [← after_succ, numChunks_after] at within
      rw [List.length_append, List.length_singleton, ← after_succ] at length
      simp only [answer, item, Option.bind_some, Except.toOption, Option.toList_some,
        List.length_append, List.length_singleton]
      omega
    · rw [numChunks_after] at all
      simp only [answer, item, Option.bind_none, Option.toList_none, List.append_nil]
      omega
    · exact absurd item (last e)

/-- The answer to a request when no error was given out before. A result is only given
out when all chunks of its window and of those before have succeeded. -/
theorem answer_cases {count : Nat} (healthy : s.Healthy count) :
    (∃ pairs, s.answer count = some (.ok pairs) ∧ s.chunkResult count = some (.ok pairs) ∧
      ∀ i < s.numChunks, i / s.window ≤ count / s.window →
        ∃ pairs, s.chunkResult i = some (.ok pairs)) ∨
    (s.answer count = none ∧ s.numChunks ≤ count) ∨
    (∃ e, s.answer count = some (.error e) ∧ s.window ∣ count ∧
      (∃ i, count ≤ i ∧ i < count + s.window ∧ s.chunkResult i = some (.error e)) ∧
      ∀ i, count < i → s.answer i = none) := by
  have length := h.length_given healthy
  obtain ⟨pairs, item, next⟩ | ⟨item, all, _⟩ |
    ⟨e, item, aligned, ⟨i, first, last, failed⟩, ended⟩ := (h.after healthy).next_cases
  · rw [← after_succ] at next
    have total := next.length_add
    have within := next.within
    rw [numChunks_after] at within
    rw [List.length_append, List.length_singleton] at total
    have place : (s.given count).length = count := by omega
    refine .inl ⟨pairs, item, ?_, fun i inside same => ?_⟩
    · have result := next.chunkResult_given (i := count) (by simp [place])
      rw [chunkResult_after] at result
      simpa [List.getElem_append_right, place] using result
    · have computed : i < (s.after (count + 1)).nextChunk := by
        apply next.lt_nextChunk next.positive (by omega : count < _)
        · rwa [numChunks_after]
        · rwa [window_after]
      simpa only [chunkResult_after] using next.chunkResult_ok computed
  · rw [numChunks_after] at all
    exact .inr (.inl ⟨item, by omega⟩)
  · rw [window_after] at aligned last
    rw [chunkResult_after] at failed
    have inside := lt_numChunks_of_chunkResult failed
    have place : (s.given count).length = count := by omega
    rw [place] at aligned first last
    refine .inr (.inr ⟨e, item, aligned, ⟨i, first, last, failed⟩, fun j later => ?_⟩)
    obtain ⟨more, rfl⟩ := Nat.exists_eq_add_of_le (Nat.succ_le_of_lt later)
    rw [← answer_after, after_succ]
    exact ended.answer more

/-- No error is given out for windows whose chunks all succeed. -/
theorem healthy {last : Nat} (whole : s.window ∣ last ∨ s.numChunks ≤ last)
    (good : ∀ i < last, ∀ e, s.chunkResult i ≠ some (.error e)) : s.Healthy last := by
  intro count
  induction count using Nat.strongRecOn with
  | ind count ih =>
    intro inside e item
    obtain ⟨_, item', _⟩ | ⟨item', _⟩ | ⟨_, _, aligned, ⟨i, first, near, failed⟩, _⟩ :=
      h.answer_cases fun j earlier => ih j earlier (Nat.lt_trans earlier inside)
    · simp [item] at item'
    · simp [item] at item'
    · have beyond : last ≤ i := Nat.le_of_not_lt fun before => good i before _ failed
      have chunk := lt_numChunks_of_chunkResult failed
      rcases whole with whole | whole
      · have next : s.window ≤ last - count :=
          Nat.le_of_dvd (Nat.sub_pos_of_lt inside) (Nat.dvd_sub whole aligned)
        omega
      · omega

theorem chunkResult_eq_given {last : Nat} (healthy : s.Healthy last) {i : Nat}
    (inside : i < (s.given last).length) : s.chunkResult i = some (.ok (s.given last)[i]) := by
  rw [← chunkResult_after s last]
  exact (h.after healthy).chunkResult_given inside

theorem answer_eq_given {last : Nat} (healthy : s.Healthy last) {i : Nat}
    (inside : i < (s.given last).length) : s.answer i = some (.ok (s.given last)[i]) := by
  have length := h.length_given healthy
  obtain ⟨pairs, item, same, _⟩ | ⟨_, beyond⟩ | ⟨e, item, _⟩ :=
    h.answer_cases (healthy.mono (by omega : i ≤ last))
  · exact item.trans (same.symm.trans (h.chunkResult_eq_given healthy inside))
  · omega
  · exact absurd item (healthy i (by omega) e)

/-- A stream gives out the results of all chunks if they succeed. -/
theorem answers_of_ok (good : ∀ i < s.numChunks, ∃ pairs, s.chunkResult i = some (.ok pairs)) :
    ∃ results, results.length = s.numChunks ∧
      s.batch.chunks.mapM s.indexing.chunk = .ok results ∧
      (∀ i (_ : i < results.length), s.chunkResult i = some (.ok results[i])) ∧
      ∀ i, s.answer i = results[i]?.map .ok := by
  have healthy (count : Nat) : s.Healthy count := by
    refine (h.healthy (.inr (Nat.le_max_left s.numChunks count)) fun i _ e failed => ?_).mono
      (Nat.le_max_right _ _)
    obtain ⟨pairs, succeeded⟩ := good i (lt_numChunks_of_chunkResult failed)
    simp [failed] at succeeded
  have running := h.after (healthy s.numChunks)
  have length : (s.given s.numChunks).length = s.numChunks := by
    rw [h.length_given (healthy _), Nat.min_self]
  have total := running.length_add
  have within := running.within
  rw [numChunks_after] at within
  have empty : (s.after s.numChunks).buffered = [] := List.eq_nil_of_length_eq_zero (by omega)
  have last : (s.after s.numChunks).nextChunk = s.numChunks := by omega
  have results := running.results
  rw [empty, List.append_nil, last] at results
  obtain ⟨_, _, _, same⟩ := s.after_keeps s.numChunks
  rw [same] at results
  refine ⟨s.given s.numChunks, length, results,
    fun i inside => h.chunkResult_eq_given (healthy _) inside, fun i => ?_⟩
  by_cases inside : i < (s.given s.numChunks).length
  · rw [h.answer_eq_given (healthy _) inside, List.getElem?_eq_getElem inside, Option.map_some]
  · rw [List.getElem?_eq_none (Nat.le_of_not_lt inside), Option.map_none]
    obtain ⟨_, _, result, _⟩ | ⟨item, _⟩ | ⟨e, item, _⟩ := h.answer_cases (healthy i)
    · exact absurd (Nat.lt_of_lt_of_eq (lt_numChunks_of_chunkResult result) length.symm) inside
    · exact item
    · exact absurd item (healthy (i + 1) i (Nat.lt_succ_self i) e)

/-- A stream stops with an error at the window of the first chunk that fails. -/
theorem answers_of_failure {k : Nat} (good : ∀ i < k, ∃ pairs, s.chunkResult i = some (.ok pairs))
    {failure : ConversionError} (failed : s.chunkResult k = some (.error failure)) :
    ∃ (results : List Pairs) (e : ConversionError), results.length = k / s.window * s.window ∧
      (∀ i (_ : i < results.length), s.chunkResult i = some (.ok results[i])) ∧
      (∃ i, results.length ≤ i ∧ i < results.length + s.window ∧
        s.chunkResult i = some (.error e)) ∧
      ∀ i, s.answer i = (results.map .ok ++ [.error e])[i]? := by
  have inside := lt_numChunks_of_chunkResult failed
  have start : k / s.window * s.window ≤ k := Nat.div_mul_le_self _ _
  have healthy : s.Healthy (k / s.window * s.window) := by
    refine h.healthy (.inl (Nat.dvd_mul_left _ _)) fun i earlier e error => ?_
    obtain ⟨pairs, succeeded⟩ := good i (by omega)
    simp [error] at succeeded
  have length : (s.given (k / s.window * s.window)).length = k / s.window * s.window := by
    rw [h.length_given healthy, Nat.min_eq_left (by omega)]
  obtain ⟨_, _, _, whole⟩ | ⟨_, beyond⟩ | ⟨e, item, _, ⟨i, first, last, error⟩, spent⟩ :=
    h.answer_cases healthy
  · obtain ⟨pairs, succeeded⟩ := whole k inside (by rw [Nat.mul_div_cancel _ h.positive])
    simp [failed] at succeeded
  · omega
  · refine ⟨s.given (k / s.window * s.window), e, length,
      fun j early => h.chunkResult_eq_given healthy early, ⟨i, by omega, by omega, error⟩,
      fun j => ?_⟩
    rcases Nat.lt_trichotomy j (s.given (k / s.window * s.window)).length with early | rfl | late
    · rw [h.answer_eq_given healthy early, List.getElem?_append_left (by simpa), List.getElem?_map,
        List.getElem?_eq_getElem early, Option.map_some]
    · rw [List.getElem?_append_right (by rw [List.length_map]), List.length_map, Nat.sub_self,
        length, item]
      rfl
    · rw [spent j (length ▸ late), List.getElem?_eq_none]
      rw [List.length_append, List.length_map, List.length_singleton]
      exact late

theorem exists_first_failure
    (bad : ¬ ∀ i < s.numChunks, ∃ pairs, s.chunkResult i = some (.ok pairs)) :
    ∃ k e, (∀ i < k, ∃ pairs, s.chunkResult i = some (.ok pairs)) ∧
      s.chunkResult k = some (.error e) := by
  classical
  push Not at bad
  have inside := (Nat.find_spec bad).1
  have first : ∀ i < Nat.find bad, ∃ pairs, s.chunkResult i = some (.ok pairs) := by
    intro i earlier
    by_contra none
    exact Nat.find_min bad earlier ⟨Nat.lt_trans earlier inside, not_exists.mp none⟩
  cases outcome : s.indexing.chunk (s.batch.piece (Nat.find bad)) with
  | ok pairs =>
    have succeeded := (chunkResult_eq_some_iff h.bounded).mpr ⟨inside, outcome⟩
    exact absurd succeeded ((Nat.find_spec bad).2 pairs)
  | error e => exact ⟨_, e, first, (chunkResult_eq_some_iff h.bounded).mpr ⟨inside, outcome⟩⟩

theorem chunkResult_of_answer {i : Nat} {pairs : Pairs} (item : s.answer i = some (.ok pairs)) :
    s.chunkResult i = some (.ok pairs) := by
  obtain ⟨healthy, _⟩ | ⟨_, ended⟩ := h.after_cases i
  · obtain ⟨_, item', result, _⟩ | ⟨item', _⟩ | ⟨_, item', _⟩ := h.answer_cases healthy
    · rwa [← item', item] at result
    · simp [item] at item'
    · simp [item] at item'
  · have nothing : s.answer i = none := by
      rw [← Nat.add_zero i, ← answer_after]
      exact ended.answer 0
    simp [item] at nothing

/-- The stream ends only when it has failed or given out the results of all chunks. -/
theorem of_answer_eq_none {i : Nat} (nothing : s.answer i = none) :
    (∃ j < i, ∃ e, s.answer j = some (.error e)) ∨
      ∀ j < s.numChunks, j < i ∧ ∃ pairs, s.answer j = some (.ok pairs) := by
  obtain ⟨healthy, _⟩ | ⟨failed, _⟩ := h.after_cases i
  · right
    intro j inside
    have all : s.numChunks ≤ i := by
      obtain ⟨_, item, _⟩ | ⟨_, all⟩ | ⟨_, item, _⟩ := h.answer_cases healthy
      · simp [nothing] at item
      · exact all
      · simp [nothing] at item
    have earlier := Nat.lt_of_lt_of_le inside all
    obtain ⟨pairs, item, _⟩ | ⟨_, beyond⟩ | ⟨e, item, _⟩ :=
      h.answer_cases (healthy.mono (Nat.le_of_lt earlier))
    · exact ⟨earlier, pairs, item⟩
    · omega
    · exact absurd item (healthy j earlier e)
  · exact .inl failed

end Running

end Stream

end HexCover.Vector
