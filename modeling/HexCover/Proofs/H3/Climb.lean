import HexCover.H3.Compaction
import HexCover.Proofs.H3.Compaction

/-! The search for a cell or an ancestor of it in a set. The words that are looked up are
those of the ancestors. A set reaches a cell exactly if the search finds something, so the
answer is that of expansion, and compaction does not change it. -/
namespace HexCover.H3

/-- Setting the low bits of a number leaves the others. -/
theorem or_low_bits (n k : Nat) : n ||| (2 ^ k - 1) = n / 2 ^ k * 2 ^ k + (2 ^ k - 1) := by
  have small : 2 ^ k - 1 < 2 ^ k := Nat.sub_one_lt (Nat.two_pow_pos k).ne'
  rw [Nat.mul_comm, Nat.two_pow_add_eq_or_of_lt small]
  apply Nat.eq_of_testBit_eq
  intro i
  rw [Nat.testBit_or, Nat.testBit_or, Nat.testBit_two_pow_mul, Nat.testBit_two_pow_sub_one,
    Nat.testBit_div_two_pow]
  by_cases low : i < k
  · simp [low]
  · have high : k ≤ i := Nat.le_of_not_lt low
    simp [low, high]

theorem foldl_sevens (n k : Nat) :
    (List.replicate k 7).foldl (fun n d => 8 * n + d) n = n * 8 ^ k + (8 ^ k - 1) := by
  induction k generalizing n with
  | zero => simp
  | succ k ih =>
    have power : 0 < 8 ^ k := Nat.pow_pos (by decide)
    rw [List.replicate_succ, List.foldl_cons, ih, Nat.pow_succ', Nat.add_mul]
    have regroup : 8 * n * 8 ^ k = n * (8 * 8 ^ k) := by
      rw [Nat.mul_comm 8 n, Nat.mul_assoc]
    omega

/-- The word that is made for an ancestor is the word of the ancestor. -/
theorem ancestorWord_word (c : Cell) {n : Nat} (le : n ≤ c.resolution) :
    ancestorWord c.word n = (c.ancestor n).word := by
  have bound := c.resolution_le
  have base := c.base.isLt
  have shifted := c.word_div
  rw [Cell.header] at shifted
  have field : c.word / 2 ^ 52 % 16 = c.resolution := by omega
  have coarser : (c.ancestor n).resolution = n := by
    rw [Cell.resolution_ancestor, Nat.min_eq_left le]
  have header : (c.ancestor n).header = 2 ^ 14 + n * 2 ^ 7 + c.base.val := by
    rw [Cell.header, coarser]
    rfl
  -- with the resolution replaced, the digits are still those of the cell
  have replaced : c.word - c.resolution * 2 ^ 52 + n * 2 ^ 52 =
      c.paddedDigits.foldl (fun n d => 8 * n + d) (c.ancestor n).header := by
    rw [foldl_eq_add, c.length_paddedDigits, header, Cell.word]
    omega
  have digits : (c.ancestor n).paddedDigits =
      c.paddedDigits.take n ++ List.replicate (15 - n) 7 := by
    have within : n ≤ (c.digits.map Fin.val).length := by
      rwa [List.length_map]
    rw [Cell.paddedDigits, coarser, Cell.paddedDigits, List.take_append_of_le_length within,
      ← List.map_take]
    rfl
  have small : ∀ d ∈ c.paddedDigits.drop n, d < 8 := fun d member =>
    c.paddedDigits_lt d (List.mem_of_mem_drop member)
  have quotient := foldl_div_pow small
    ((c.paddedDigits.take n).foldl (fun n d => 8 * n + d) (c.ancestor n).header)
  rw [List.length_drop, c.length_paddedDigits, ← List.foldl_append, List.take_append_drop,
    ← replaced] at quotient
  have power : 2 ^ (3 * (15 - n)) = 8 ^ (15 - n) := Nat.pow_mul 2 3 _
  rw [(c.ancestor n).word_eq_foldl, digits, List.foldl_append, foldl_sevens, ← quotient, ← power,
    ← or_low_bits, ancestorWord, field]

variable {s t : CellSet} {c : Cell}

theorem climb_eq_any {n : Nat} (le : n ≤ c.resolution) :
    climb s c.word n = (List.range n).any fun m => s.contains (c.ancestor m).id := by
  induction n with
  | zero => rfl
  | succ n ih =>
    have below : n ≤ c.resolution := Nat.le_of_succ_le le
    rw [climb, ancestorWord_word c below, ih below, List.range_succ, List.any_append, Bool.or_comm]
    simp [Cell.id]

theorem searchUpward_eq (s : CellSet) (id : CellId) :
    searchUpward s id = containsOrAncestor s id := by
  unfold searchUpward containsOrAncestor
  split
  · rfl
  · cases read : Cell.ofId id with
    | error e => rfl
    | ok c =>
      obtain rfl := Cell.ofId_eq_ok_iff.mp read
      simp [Except.map, Cell.toNat_id, climb_eq_any (Nat.le_refl _)]

/-- A set reaches a cell if it holds the cell or an ancestor of it. -/
theorem reaches_cellsIn_iff : Reaches (cellsIn s) c ↔
    c.id ∈ s ∨ ∃ n < c.resolution, (c.ancestor n).id ∈ s := by
  constructor
  · rintro ⟨d, member, covers⟩
    rw [mem_cellsIn] at member
    rcases Nat.lt_or_ge d.resolution c.resolution with coarser | same
    · exact .inr ⟨d.resolution, coarser, covers.symm ▸ member⟩
    · exact .inl (covers.eq_of_le same ▸ member)
  · rintro (member | ⟨n, _, member⟩)
    · exact ⟨c, mem_cellsIn.mpr member, .refl c⟩
    · exact ⟨_, mem_cellsIn.mpr member, c.covers_ancestor n⟩

/-- The answer for a cell is whether the set reaches it. -/
theorem exists_answer (s : CellSet) (c : Cell) :
    ∃ answer, containsOrAncestor s c.id = .ok answer ∧
      (answer = true ↔ Reaches (cellsIn s) c) := by
  simp only [containsOrAncestor, reaches_cellsIn_iff, Std.ExtTreeSet.contains_iff_mem]
  by_cases member : c.id ∈ s
  · exact ⟨true, if_pos member, by simp [member]⟩
  · rw [if_neg member, Cell.ofId_eq_ok_iff.mpr rfl]
    exact ⟨_, rfl, by simp [member]⟩

theorem answer_iff : containsOrAncestor s c.id = .ok true ↔ Reaches (cellsIn s) c := by
  obtain ⟨answer, run, reached⟩ := exists_answer s c
  rw [run, ← reached, Except.ok.injEq]

theorem answer_congr (same : Reaches (cellsIn t) c ↔ Reaches (cellsIn s) c) :
    containsOrAncestor t c.id = containsOrAncestor s c.id := by
  obtain ⟨answer, run, reached⟩ := exists_answer s c
  obtain ⟨answer', run', reached'⟩ := exists_answer t c
  rw [run, run', Bool.eq_iff_iff.mpr (reached'.trans (same.trans reached.symm))]

theorem answer_of_unread {id : CellId} (unread : ∀ c : Cell, c.id ≠ id) :
    containsOrAncestor s id = if id ∈ s then .ok true else .error (.invalidCell id.raw) := by
  rw [containsOrAncestor, Cell.ofId_eq_error_iff.mpr ⟨rfl, unread⟩]
  rfl

section Coarser

variable (coarser : ∀ m ∈ s, ∃ r ≤ c.resolution, resolutionOf m = .ok r)
include coarser

theorem valid_of_coarser : Valid s :=
  valid_of_resolutionOf fun m member => (coarser m member).imp fun _ => And.right

theorem within_of_coarser : Within c.resolution (cellsIn s) := by
  intro d member
  obtain ⟨r, le, resolution⟩ := coarser d.id (mem_cellsIn.mp member)
  obtain ⟨d', same, rfl⟩ := resolutionOf_eq_ok_iff.mp resolution
  rwa [← Cell.id_injective same]

/-- The answer is whether expansion gives the cell. -/
theorem exists_uncompact_answer : ∃ u, uncompact s c.resolution = .ok u ∧
    (containsOrAncestor s c.id = .ok true ↔ c.id ∈ u) := by
  have level : Within (⟨c.resolution, Nat.lt_succ_of_le c.resolution_le⟩ : Resolution).val
    (cellsIn s) := within_of_coarser coarser
  obtain ⟨u, run, _, members⟩ := (valid_of_coarser coarser).exists_uncompact level
  refine ⟨u, run, ?_⟩
  rw [answer_iff, ← mem_cellsIn, members, eq_self_iff_true, true_and]

/-- Compaction keeps the answer. -/
theorem exists_compact_answer : ∃ t, compact s = .ok t ∧
    (∀ merge, MergesSiblings merge → compactWith merge s = .ok t) ∧
    containsOrAncestor t c.id = containsOrAncestor s c.id := by
  have valid := valid_of_coarser coarser
  obtain ⟨t, valid', layered⟩ := valid.exists_compacted
  have kept := (layered.compacts (within_cellsIn s)).preserves
  refine ⟨t, ?_, fun merge merging => ?_, ?_⟩
  · exact compactWith_eq_ok compactLayer_mergesSiblings valid valid' layered
  · exact compactWith_eq_ok merging valid valid' layered
  · exact answer_congr (kept.reaches c.resolution c (within_of_coarser coarser) le_rfl)

end Coarser

/-- The search finds a member, or an ancestor of a cell that is a member. It fails on what is
neither. For cells that are as fine as every member it answers as expansion does, and the
same before and after compaction. -/
theorem containsOrAncestor_exact (s : CellSet) (id : CellId) :
    searchUpward s id = containsOrAncestor s id ∧
    (containsOrAncestor s id = .ok true ↔
      id ∈ s ∨ ∃ c : Cell, c.id = id ∧ ∃ n < c.resolution, (c.ancestor n).id ∈ s) ∧
    (containsOrAncestor s id = .ok false ↔
      id ∉ s ∧ ∃ c : Cell, c.id = id ∧ ∀ n < c.resolution, (c.ancestor n).id ∉ s) ∧
    (∀ e, containsOrAncestor s id = .error e ↔
      e = .invalidCell id.raw ∧ id ∉ s ∧ ∀ c : Cell, c.id ≠ id) ∧
    ∀ c : Cell, c.id = id → (∀ m ∈ s, ∃ r ≤ c.resolution, resolutionOf m = .ok r) →
      (∃ u, uncompact s c.resolution = .ok u ∧
        (containsOrAncestor s id = .ok true ↔ id ∈ u)) ∧
      ∃ t, compact s = .ok t ∧
        (∀ merge, MergesSiblings merge → compactWith merge s = .ok t) ∧
        containsOrAncestor t id = containsOrAncestor s id := by
  refine ⟨searchUpward_eq s id, ?_⟩
  by_cases read : ∃ c : Cell, c.id = id
  · obtain ⟨c, rfl⟩ := read
    have own {p : Cell → Prop} : (∃ d : Cell, d.id = c.id ∧ p d) ↔ p c :=
      ⟨fun ⟨d, same, holds⟩ => Cell.id_injective same ▸ holds, fun holds => ⟨c, rfl, holds⟩⟩
    obtain ⟨answer, run, reached⟩ := exists_answer s c
    rw [reaches_cellsIn_iff] at reached
    refine ⟨?_, ?_, fun e => ?_, fun d same coarser => ?_⟩
    · rw [own, ← reached, run, Except.ok.injEq]
    · rw [own, run, Except.ok.injEq, ← Bool.not_eq_true, reached]
      simp
    · rw [run]
      exact iff_of_false nofun fun unread => unread.2.2 c rfl
    · obtain rfl := Cell.id_injective same
      exact ⟨exists_uncompact_answer coarser, exists_compact_answer coarser⟩
  · have unread : ∀ c : Cell, c.id ≠ id := fun c same => read ⟨c, same⟩
    have absent {p : Cell → Prop} : ¬ ∃ d : Cell, d.id = id ∧ p d :=
      fun ⟨d, same, _⟩ => unread d same
    rw [answer_of_unread unread]
    refine ⟨?_, ?_, fun e => ?_, fun c same => absurd same (unread c)⟩
    · by_cases member : id ∈ s <;> simp [member, absent]
    · by_cases member : id ∈ s <;> simp [member, absent]
    · by_cases member : id ∈ s <;> simp [member, unread, eq_comm]

/-- A grandchild of a pentagon is found through the pentagon. -/
theorem containsOrAncestor_exact_pentagon :
    let s := idSet [fifthPentagon]
    let c : Cell := ⟨4, [0, 2], by decide⟩
    (∀ m ∈ s, ∃ r ≤ c.resolution, resolutionOf m = .ok r) ∧
      containsOrAncestor s c.id = .ok true ∧ (∃ u, uncompact s 2 = .ok u ∧ c.id ∈ u) ∧
      ∃ t, compact s = .ok t ∧ containsOrAncestor t c.id = .ok true := by
  intro s c
  have coarser : ∀ m ∈ s, ∃ r ≤ c.resolution, resolutionOf m = .ok r := by
    intro m member
    obtain ⟨d, listed, same⟩ := mem_idSet.mp member
    obtain rfl := List.mem_singleton.mp listed
    exact ⟨0, Nat.zero_le _, resolutionOf_eq_ok_iff.mpr ⟨_, same, rfl⟩⟩
  obtain ⟨_, found, _, _, agrees⟩ := containsOrAncestor_exact s c.id
  have ancestor : (c.ancestor 0).id ∈ s := id_mem_idSet.mpr (List.mem_singleton.mpr (by decide))
  have answer := found.mpr (.inr ⟨c, rfl, 0, by decide, ancestor⟩)
  obtain ⟨⟨u, expanded, reached⟩, t, compacted, _, same⟩ := agrees c rfl coarser
  exact ⟨coarser, answer, ⟨u, expanded, reached.mp answer⟩, t, compacted, same.trans answer⟩

end HexCover.H3
