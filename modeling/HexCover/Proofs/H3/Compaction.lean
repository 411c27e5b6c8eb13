import HexCover.Proofs.H3.Layers
import HexCover.Proofs.H3.Levels

/-! Compaction and expansion of sets of identifiers. Compaction never fails on
identifiers of cells, and what it returns does not depend on the order in which they are
listed or on how a layer is merged. On cells of one resolution it is the coarsest
exact description of the set; on cells of any resolutions it keeps the covered area and
leaves nothing to merge. -/
namespace HexCover.H3

theorem eraseReps_loop_eq {α : Type} [DecidableEq α] {le : α → α → Prop}
    (antisymm : ∀ a b, le a b → le b a → a = b) {a : α} {as : List α} (acc : List α)
    (sorted : (a :: as).Pairwise le) :
    List.eraseRepsBy.loop (· == ·) a as acc = acc.reverse ++ (a :: as).dedup := by
  induction as generalizing a acc with
  | nil => simp [List.eraseRepsBy.loop]
  | cons b bs ih =>
    obtain ⟨first, rest⟩ := List.pairwise_cons.mp sorted
    rw [List.eraseRepsBy.loop]
    by_cases same : a = b
    · subst same
      have repeated : a ∈ a :: bs := List.mem_cons_self
      rw [beq_self_eq_true, List.dedup_cons_of_mem repeated]
      exact ih acc rest
    · have fresh : a ∉ b :: bs := by
        intro member
        rcases List.mem_cons.mp member with here | later
        · exact same here
        · have below := (List.pairwise_cons.mp rest).1 a later
          exact same (antisymm a b (first b (by simp)) below)
      have next := ih (a :: acc) rest
      rw [List.reverse_cons, List.append_assoc, List.singleton_append] at next
      rw [beq_eq_false_iff_ne.mpr same, List.dedup_cons_of_notMem fresh]
      exact next

theorem eraseReps_eq_dedup {α : Type} [DecidableEq α] {le : α → α → Prop}
    (antisymm : ∀ a b, le a b → le b a → a = b) {as : List α} (sorted : as.Pairwise le) :
    as.eraseReps = as.dedup := by
  cases as with
  | nil => rfl
  | cons a as => exact eraseReps_loop_eq antisymm [] sorted

theorem sorted_mergeSort (cells : List Cell) :
    (cells.mergeSort fun a b => a.id.raw ≤ b.id.raw).Pairwise
      fun a b => decide (a.id.raw ≤ b.id.raw) = true := by
  have trans (a b c : Cell) (h : decide (a.id.raw ≤ b.id.raw) = true)
      (h' : decide (b.id.raw ≤ c.id.raw) = true) : decide (a.id.raw ≤ c.id.raw) = true :=
    decide_eq_true (UInt64.le_trans (of_decide_eq_true h) (of_decide_eq_true h'))
  have total (a b : Cell) :
      (decide (a.id.raw ≤ b.id.raw) || decide (b.id.raw ≤ a.id.raw)) = true := by
    simpa using UInt64.le_total a.id.raw b.id.raw
  exact List.pairwise_mergeSort trans total cells

/-- Removing repeated neighbours after sorting removes all repetitions. -/
theorem distinct_eq_dedup (cells : List Cell) :
    distinct cells = (cells.mergeSort fun a b => a.id.raw ≤ b.id.raw).dedup := by
  refine eraseReps_eq_dedup (fun a b le ge => ?_) (sorted_mergeSort cells)
  have same := UInt64.le_antisymm (of_decide_eq_true le) (of_decide_eq_true ge)
  exact Cell.id_injective (congrArg CellId.mk same)

theorem nodup_distinct (cells : List Cell) : (distinct cells).Nodup := by
  rw [distinct_eq_dedup]
  exact List.nodup_dedup _

theorem mem_distinct {cells : List Cell} {c : Cell} : c ∈ distinct cells ↔ c ∈ cells := by
  rw [distinct_eq_dedup, List.mem_dedup, List.mem_mergeSort]

theorem toFinset_atLevel (r : Nat) (cells : List Cell) :
    (cells.filter fun c => c.resolution = r).toFinset = atLevel r cells.toFinset := by
  ext c
  simp only [atLevel, List.mem_toFinset, List.mem_filter, Finset.mem_filter, decide_eq_true_eq]

theorem toFinset_offLevel (r : Nat) (cells : List Cell) :
    (cells.filter fun c => !decide (c.resolution = r)).toFinset = offLevel r cells.toFinset := by
  ext c
  simp only [offLevel, List.mem_toFinset, List.mem_filter, Finset.mem_filter, Bool.not_eq_true',
    decide_eq_false_iff_not]

section Listing

variable {merge : List Cell → Except LayerFault (List Cell)} (merging : MergesSiblings merge)
include merging

theorem exists_mergeLayer (r : Nat) (pending : List Cell) :
    ∃ merged, mergeLayer merge (pending.filter fun c => c.resolution = r) = .ok merged ∧
      Merges (atLevel r pending.toFinset) merged.toFinset ∧ Settled merged.toFinset := by
  have single : ∀ c ∈ pending.filter fun c => c.resolution = r, c.resolution = r :=
    fun c member => of_decide_eq_true (List.mem_filter.mp member).2
  rw [← toFinset_atLevel]
  cases layer : pending.filter fun c => c.resolution = r with
  | nil =>
    refine ⟨[], rfl, .refl, settled_of_within_zero fun c member => ?_⟩
    exact absurd (List.mem_toFinset.mp member) List.not_mem_nil
  | cons d rest =>
    rw [layer] at single
    have same : (distinct (d :: rest)).toFinset = (d :: rest).toFinset := by
      ext c
      rw [List.mem_toFinset, List.mem_toFinset, mem_distinct]
    obtain ⟨merged, run, merges, settled⟩ := merging (distinct (d :: rest)) r
      (nodup_distinct _) fun c member => single c (mem_distinct.mp member)
    exact ⟨merged, run, same ▸ merges, settled⟩

theorem exists_compactLayers (r : Nat) (pending : List Cell) :
    ∃ cells, compactLayers merge r pending = .ok cells ∧
      Layered r pending.toFinset cells.toFinset := by
  induction r generalizing pending with
  | zero =>
    obtain ⟨merged, run, merges, settled⟩ := exists_mergeLayer merging 0 pending
    exact ⟨merged, run, .coarsest merges settled⟩
  | succ r ih =>
    obtain ⟨merged, run, merges, settled⟩ := exists_mergeLayer merging (r + 1) pending
    obtain ⟨below, run', layered⟩ := ih (pending.filter (fun c => !decide (c.resolution = r + 1)) ++
      merged.filter fun c => !decide (c.resolution = r + 1))
    have result : compactLayers merge (r + 1) pending =
        .ok (merged.filter (fun c => c.resolution = r + 1) ++ below) := by
      simp only [compactLayers, List.partition_eq_filter_filter, run]
      exact congrArg (fun x => x >>= fun below => pure (_ ++ below)) run'
    refine ⟨_, result, ?_⟩
    rw [List.toFinset_append, toFinset_offLevel, toFinset_offLevel] at layered
    rw [List.toFinset_append, toFinset_atLevel]
    exact .next merges settled layered

end Listing

section Sets

variable {s t : CellSet}

theorem within_cellsIn (s : CellSet) : Within 15 (cellsIn s) := fun c _ => c.resolution_le

/-- Any listing of a set leads to the same result, whichever way its layers are merged. -/
theorem compactLayers_listing {merge : List Cell → Except LayerFault (List Cell)}
    (merging : MergesSiblings merge) (valid : Valid t)
    (layered : Layered 15 (cellsIn s) (cellsIn t))
    {listing : List Cell} (listed : ∀ c, c ∈ listing ↔ c.id ∈ s) :
    (compactLayers merge 15 listing).map idSet = .ok t := by
  obtain ⟨cells, run, layered'⟩ := exists_compactLayers merging 15 listing
  have pending : listing.toFinset = cellsIn s := by
    ext c
    rw [List.mem_toFinset, listed, mem_cellsIn]
  rw [pending, ← cellsIn_idSet] at layered'
  have same := (valid_idSet cells).eq_of_cellsIn valid (layered'.unique layered le_rfl)
  rw [run, ← same]
  rfl

theorem compactWith_eq_ok {merge : List Cell → Except LayerFault (List Cell)}
    (merging : MergesSiblings merge) (hs : Valid s) (ht : Valid t)
    (layered : Layered 15 (cellsIn s) (cellsIn t)) : compactWith merge s = .ok t := by
  obtain ⟨listing, read⟩ := hs.exists_cellsOf
  have listed (c : Cell) : c ∈ listing ↔ c.id ∈ s := by
    rw [← List.mem_toFinset, toFinset_of_cellsOf read, mem_cellsIn]
  obtain ⟨cells, run, same⟩ :=
    map_eq_ok_iff.mp (compactLayers_listing merging ht layered listed)
  simp only [compactWith, read, run, ← same, bind, Except.bind, pure, Except.pure]

theorem Valid.exists_compacted (valid : Valid s) :
    ∃ t, Valid t ∧ Layered 15 (cellsIn s) (cellsIn t) := by
  obtain ⟨listing, read⟩ := valid.exists_cellsOf
  obtain ⟨cells, _, layered⟩ := exists_compactLayers compactLayer_mergesSiblings 15 listing
  rw [toFinset_of_cellsOf read, ← cellsIn_idSet] at layered
  exact ⟨idSet cells, valid_idSet cells, layered⟩

/-- Expansion gives the cells of a resolution that the set reaches. -/
theorem Valid.exists_uncompact (valid : Valid s) {f : Resolution}
    (bound : Within f.val (cellsIn s)) :
    ∃ u, uncompact s f.val = .ok u ∧ Valid u ∧
      ∀ d : Cell, d ∈ cellsIn u ↔ d.resolution = f.val ∧ Reaches (cellsIn s) d := by
  obtain ⟨cells, read⟩ := valid.exists_cellsOf
  have member (c : Cell) : c ∈ cells ↔ c ∈ cellsIn s := by
    rw [← List.mem_toFinset, toFinset_of_cellsOf read]
  have coarse : cells.find? (fun c => f.val < c.resolution) = none := by
    apply List.find?_eq_none.mpr
    intro c hc
    have le := bound c ((member c).mp hc)
    rw [decide_eq_true_eq]
    omega
  have run : uncompact s f.val = .ok (idSet (expand cells f.val)) := by
    simp only [uncompact, Resolution.validate_of_lt f.isLt, read, bind, Except.bind, coarse, pure,
      Except.pure]
  refine ⟨_, run, valid_idSet _, fun d => ?_⟩
  rw [cellsIn_idSet, List.mem_toFinset, expand, List.mem_flatMap]
  constructor
  · rintro ⟨c, hc, descendant⟩
    obtain ⟨resolution, covers⟩ := Cell.mem_descendants_iff.mp descendant
    have le := bound c ((member c).mp hc)
    exact ⟨by omega, c, (member c).mp hc, covers⟩
  · rintro ⟨resolution, c, hc, covers⟩
    have le := bound c hc
    exact ⟨c, (member c).mpr hc, Cell.mem_descendants_iff.mpr ⟨by omega, covers⟩⟩

theorem uncompact_congr (hs : Valid s) (ht : Valid t) {f : Resolution}
    (bound : Within f.val (cellsIn s)) (kept : Preserves (cellsIn s) (cellsIn t)) :
    ∃ u, uncompact s f.val = .ok u ∧ uncompact t f.val = .ok u := by
  obtain ⟨u, run, valid, members⟩ := hs.exists_uncompact bound
  obtain ⟨u', run', valid', members'⟩ := ht.exists_uncompact (kept.within f.val bound)
  have same : u = u' := by
    apply valid.eq_of_cellsIn valid'
    ext d
    rw [members, members']
    refine and_congr_right fun resolution => ?_
    exact (kept.reaches f.val d bound resolution.ge).symm
  exact ⟨u, run, same ▸ run'⟩

section Single

variable {r : Resolution} (level : ∀ c ∈ cellsIn s, c.resolution = r.val)
  (layered : Layered 15 (cellsIn s) (cellsIn t))
include level layered

theorem merges_of_single : Merges (cellsIn s) (cellsIn t) :=
  (layered.compacts (within_cellsIn s)).merges (antichain_of_single level)

theorem antichain_of_layered : Antichain (cellsIn t) :=
  (merges_of_single level layered).antichain (antichain_of_single level)

theorem mem_iff_of_layered {c : Cell} :
    c.id ∈ t ↔ c.resolution ≤ r.val ∧ (∀ d ∈ c.descendants (r.val - c.resolution), d.id ∈ s) ∧
      (c.resolution = 0 ∨
        ∃ d ∈ c.parent.descendants (r.val - c.parent.resolution), d.id ∉ s) := by
  have compacts := layered.compacts (within_cellsIn s)
  have fits : r.val ≤ 15 := by omega
  have maximal := mem_iff_maximal (c := c) level compacts.preserves fits compacts.settled
    (antichain_of_layered level layered)
  rw [← mem_cellsIn, maximal, Filled, and_assoc]
  refine and_congr_right fun le => and_congr ?_ (or_congr_right ?_)
  · simp only [mem_cellsIn]
  · have coarser : c.parent.resolution ≤ r.val := by
      rw [Cell.resolution_parent]
      omega
    simp only [Filled, coarser, true_and, not_forall, mem_cellsIn, exists_prop]

theorem uncompact_of_layered (hs : Valid s) (ht : Valid t) : uncompact t r.val = .ok s := by
  have kept := (merges_of_single level layered).preserves
  obtain ⟨u, run, valid, members⟩ := ht.exists_uncompact (within_of_single level kept)
  have same : u = s := by
    apply valid.eq_of_cellsIn hs
    ext d
    rw [members]
    constructor
    · rintro ⟨resolution, reached⟩
      exact (reaches_of_single level kept resolution).mp reached
    · intro member
      have resolution := level d member
      exact ⟨resolution, (reaches_of_single level kept resolution).mpr member⟩
  rw [run, same]

end Single

/-- The set `t` stands for a set `s` of cells of resolution `r`: it is what compaction makes
of `s` alone, expansion gives `s` back, and no member is an ancestor of another one. -/
structure Condenses (r : Nat) (s t : CellSet) : Prop where
  compacted : compact s = .ok t
  expanded : uncompact t r = .ok s
  apart : ∀ c d : Cell, c.id ∈ t → d.id ∈ t → ∀ n < d.resolution, d.ancestor n ≠ c

theorem Antichain.ancestor_ne {k : Finset Cell} (apart : Antichain k) {c d : Cell} (hc : c ∈ k)
    (hd : d ∈ k) {n : Nat} (lt : n < d.resolution) : d.ancestor n ≠ c := by
  rintro rfl
  have same := apart _ hc d hd (d.covers_ancestor n)
  have resolution := d.resolution_ancestor n
  rw [same] at resolution
  omega

theorem level_of_single {r : Nat} (single : ∀ id ∈ s, resolutionOf id = .ok r) :
    ∀ c ∈ cellsIn s, c.resolution = r := by
  intro c member
  obtain ⟨d, same, resolution⟩ := resolutionOf_eq_ok_iff.mp (single c.id (mem_cellsIn.mp member))
  rwa [← Cell.id_injective same]

/-- Every set of cells of one resolution condenses. -/
theorem exists_condenses {s : CellSet} {r : Resolution}
    (single : ∀ id ∈ s, resolutionOf id = .ok r.val) : ∃ t, Condenses r.val s t := by
  have valid : Valid s := valid_of_resolutionOf fun id member => ⟨_, single id member⟩
  have level := level_of_single single
  obtain ⟨t, valid', layered⟩ := valid.exists_compacted
  have apart := antichain_of_layered level layered
  refine ⟨t, ?_, uncompact_of_layered level layered valid valid', fun c d hc hd n lt => ?_⟩
  · exact compactWith_eq_ok compactLayer_mergesSiblings valid valid' layered
  · exact apart.ancestor_ne (mem_cellsIn.mpr hc) (mem_cellsIn.mpr hd) lt

/-- What stands for cells of one resolution holds the coarsest cells all of whose descendants
are among them. -/
theorem Condenses.mem_iff {r : Resolution} {cells : List Cell}
    (level : ∀ c ∈ cells, c.resolution = r.val) (h : Condenses r.val (idSet cells) t) {c : Cell} :
    c.id ∈ t ↔ c.resolution ≤ r.val ∧
      (∀ d ∈ c.descendants (r.val - c.resolution), d ∈ cells) ∧
      (c.resolution = 0 ∨
        ∃ d ∈ c.parent.descendants (r.val - c.parent.resolution), d ∉ cells) := by
  obtain ⟨u, valid, layered⟩ := (valid_idSet cells).exists_compacted
  have compacted : compact (idSet cells) = .ok u :=
    compactWith_eq_ok compactLayer_mergesSiblings (valid_idSet cells) valid layered
  obtain rfl := Except.ok.inj (compacted.symm.trans h.compacted)
  have level' : ∀ c ∈ cellsIn (idSet cells), c.resolution = r.val := by
    simpa only [cellsIn_idSet, List.mem_toFinset] using level
  simpa only [id_mem_idSet] using mem_iff_of_layered level' layered (c := c)

theorem compact_empty : compact ∅ = .ok ∅ := rfl

theorem eq_empty_of_uncompact {r : Nat} (h : uncompact ∅ r = .ok s) : s = ∅ := by
  rcases Nat.lt_or_ge r 16 with valid | outside
  · have run : uncompact ∅ r = .ok ∅ := by
      simp only [uncompact, Resolution.validate_of_lt valid]
      rfl
    exact Except.ok.inj (h.symm.trans run)
  · simp [uncompact, Resolution.validate_of_ge outside, bind, Except.bind] at h

theorem Condenses.eq_empty_iff {r : Nat} (h : Condenses r s t) : t = ∅ ↔ s = ∅ := by
  constructor
  · rintro rfl
    exact eq_empty_of_uncompact h.expanded
  · rintro rfl
    exact Except.ok.inj (h.compacted.symm.trans compact_empty)

theorem Condenses.nonempty_iff {r : Nat} (h : Condenses r s t) :
    (∃ id, id ∈ t) ↔ ∃ id, id ∈ s := by
  have empty := not_congr h.eq_empty_iff
  simpa only [Std.ExtTreeSet.eq_empty_iff_forall_not_mem, not_forall, not_not] using empty

end Sets

/-- Compaction of cells of one resolution is canonical. It succeeds, whichever way layers
are merged and in whatever order the cells are listed; the result holds the coarsest cells
whose descendants all belong to the set; expansion gives the set back. -/
theorem compact_canonical {s : CellSet} {r : Resolution}
    (single : ∀ id ∈ s, resolutionOf id = .ok r.val) :
    ∃ t, compact s = .ok t ∧
      (∀ merge, MergesSiblings merge → compactWith merge s = .ok t ∧
        ∀ listing : List Cell, (∀ c, c ∈ listing ↔ c.id ∈ s) →
          (compactLayers merge 15 listing).map idSet = .ok t) ∧
      (∀ id, id ∈ t ↔ ∃ c : Cell, c.id = id ∧ c.resolution ≤ r.val ∧
        (∀ d ∈ c.descendants (r.val - c.resolution), d.id ∈ s) ∧
        (c.resolution = 0 ∨
          ∃ d ∈ c.parent.descendants (r.val - c.parent.resolution), d.id ∉ s)) ∧
      uncompact t r.val = .ok s ∧
      (∀ c d : Cell, c.id ∈ t → d.id ∈ t → ∀ n < d.resolution, d.ancestor n ≠ c) ∧
      t.size ≤ s.size := by
  have valid : Valid s := valid_of_resolutionOf fun id member => ⟨_, single id member⟩
  have level := level_of_single single
  obtain ⟨t, valid', layered⟩ := valid.exists_compacted
  refine ⟨t, ?_, fun merge merging => ⟨?_, fun listing listed => ?_⟩, fun id => ?_, ?_, ?_, ?_⟩
  · exact compactWith_eq_ok compactLayer_mergesSiblings valid valid' layered
  · exact compactWith_eq_ok merging valid valid' layered
  · exact compactLayers_listing merging valid' layered listed
  · constructor
    · intro member
      obtain ⟨c, rfl⟩ := valid' id member
      exact ⟨c, rfl, (mem_iff_of_layered level layered).mp member⟩
    · rintro ⟨c, rfl, maximal⟩
      exact (mem_iff_of_layered level layered).mpr maximal
  · exact uncompact_of_layered level layered valid valid'
  · intro c d hc hd n lt ancestor
    subst ancestor
    have same := antichain_of_layered level layered _ (mem_cellsIn.mpr hc) d (mem_cellsIn.mpr hd)
      (d.covers_ancestor n)
    have resolution := d.resolution_ancestor n
    rw [same] at resolution
    omega
  · rw [← valid.card_cellsIn, ← valid'.card_cellsIn]
    exact (merges_of_single level layered).preserves.card_le

def fifthPentagon : Cell := ⟨4, [], by decide⟩

/-- The central child of the pentagon of the fifth base cell. -/
def centralPentagon : Cell := ⟨4, [0], by decide⟩

theorem compact_pentagon_children :
    MergesSiblings compactLayer ∧
      (∀ id ∈ idSet fifthPentagon.children, resolutionOf id = .ok 1) ∧
      fifthPentagon.children.length = 6 ∧
      ∃ t, compact (idSet fifthPentagon.children) = .ok t ∧ fifthPentagon.id ∈ t ∧
        uncompact t 1 = .ok (idSet fifthPentagon.children) ∧ t.size ≤ 6 := by
  have single : ∀ id ∈ idSet fifthPentagon.children,
      resolutionOf id = .ok (1 : Resolution).val := by
    intro id member
    obtain ⟨c, child, same⟩ := mem_idSet.mp member
    exact resolutionOf_eq_ok_iff.mpr ⟨c, same, Cell.resolution_of_mem_children child⟩
  have six : fifthPentagon.children.length = 6 := by decide
  have nodup : fifthPentagon.children.Nodup := by decide
  obtain ⟨t, _, given, members, expanded, _, size⟩ := compact_canonical single
  have run := (given compactLayer compactLayer_mergesSiblings).1
  refine ⟨compactLayer_mergesSiblings, single, six, t, run, (members _).mpr ?_, expanded, ?_⟩
  · refine ⟨fifthPentagon, rfl, by decide, fun d descendant => ?_, .inl rfl⟩
    have child := Cell.mem_children_iff.mpr (Cell.mem_descendants_iff.mp descendant)
    exact id_mem_idSet.mpr child
  · rwa [size_idSet nodup, six] at size

/-- Compaction of cells of any resolutions, overlapping or not, succeeds and keeps the area
at every resolution that is fine enough. No complete group of siblings is left, the set
does not grow, and compacting again changes nothing. -/
theorem compact_lossless {s : CellSet} (valid : ∀ id ∈ s, ∃ r, resolutionOf id = .ok r) :
    ∃ t, compact s = .ok t ∧
      (∀ merge, MergesSiblings merge →
        compactWith merge s = .ok t ∧ compactWith merge t = .ok t) ∧
      (∀ f : Resolution, (∀ id ∈ s, ∀ r, resolutionOf id = .ok r → r ≤ f.val) →
        ∃ u, uncompact s f.val = .ok u ∧ uncompact t f.val = .ok u) ∧
      (∀ p : Cell, p.resolution < 15 → ∃ child ∈ p.children, child.id ∉ t) ∧
      t.size ≤ s.size ∧ compact t = .ok t := by
  have hs : Valid s := valid_of_resolutionOf valid
  obtain ⟨t, ht, layered⟩ := hs.exists_compacted
  have compacts := layered.compacts (within_cellsIn s)
  have again : Layered 15 (cellsIn t) (cellsIn t) := by
    obtain ⟨t', _, layered'⟩ := ht.exists_compacted
    have same := (layered'.compacts (within_cellsIn t)).fixed compacts.settled
    rwa [same] at layered'
  refine ⟨t, ?_, fun merge merging => ⟨?_, ?_⟩, fun f fine => ?_, fun p coarse => ?_, ?_, ?_⟩
  · exact compactWith_eq_ok compactLayer_mergesSiblings hs ht layered
  · exact compactWith_eq_ok merging hs ht layered
  · exact compactWith_eq_ok merging ht ht again
  · refine uncompact_congr hs ht (fun c member => ?_) compacts.preserves
    exact fine c.id (mem_cellsIn.mp member) _ (resolutionOf_eq_ok_iff.mpr ⟨c, rfl, rfl⟩)
  · obtain ⟨child, sibling, absent⟩ := compacts.settled p coarse
    exact ⟨child, sibling, fun member => absent (mem_cellsIn.mpr member)⟩
  · rw [← hs.card_cellsIn, ← ht.card_cellsIn]
    exact compacts.preserves.card_le
  · exact compactWith_eq_ok compactLayer_mergesSiblings ht ht again

/-- A pentagon together with its children overlaps. -/
theorem compact_overlapping :
    MergesSiblings compactLayer ∧
      (∀ id ∈ idSet (fifthPentagon :: fifthPentagon.children), ∃ r, resolutionOf id = .ok r) ∧
      ∃ t, compact (idSet (fifthPentagon :: fifthPentagon.children)) = .ok t ∧
        (∃ child ∈ fifthPentagon.children, child.id ∉ t) ∧ t.size ≤ 7 ∧ compact t = .ok t := by
  have valid : ∀ id ∈ idSet (fifthPentagon :: fifthPentagon.children),
      ∃ r, resolutionOf id = .ok r := by
    intro id member
    obtain ⟨c, _, same⟩ := mem_idSet.mp member
    exact ⟨c.resolution, resolutionOf_eq_ok_iff.mpr ⟨c, same, rfl⟩⟩
  have size : (idSet (fifthPentagon :: fifthPentagon.children)).size = 7 := by
    rw [size_idSet (by decide)]
    decide
  obtain ⟨t, _, given, _, settled, smaller, _⟩ := compact_lossless valid
  obtain ⟨run, again⟩ := given compactLayer compactLayer_mergesSiblings
  rw [size] at smaller
  have absent := settled fifthPentagon (by decide)
  exact ⟨compactLayer_mergesSiblings, valid, t, run, absent, smaller, again⟩

end HexCover.H3
