import HexCover.Proofs.H3.Compaction
import HexCover.Proofs.H3.Generation

/-! Compaction against the level-by-level rule. The rule goes from the finest resolution to
the coarsest and replaces every complete group of the cells then present by its parent, which
joins the cells one step coarser. It leaves the generated cells that belong to no generated
group, so that a cell whose descendants are all there adds nothing. Compaction returns the
cells of the rule and, besides, members that are covered by them: a member stays when its
parent is reached from finer cells in one go. On irredundant sets the two agree. -/
namespace HexCover.H3

/-- Replace every complete group of the cells of one resolution by its parent. -/
def replaceGroups (r : Nat) (present : List Cell) : List Cell :=
  let (complete, kept) := present.partition fun c =>
    c.resolution = r ∧ ∀ sibling ∈ c.parent.children, sibling ∈ present
  kept ++ complete.map Cell.parent

def levelwise : (r : Nat) → List Cell → List Cell
  | 0, present => present
  | r + 1, present => levelwise r (replaceGroups (r + 1) present)

def compactLevelwise (s : CellSet) : Except ConversionError CellSet :=
  (cellsOf s).map fun cells => idSet (levelwise 15 cells)

section Rule

variable {a : Finset Cell} {c : Cell} {r : Nat} {present : List Cell}

theorem mem_replaceGroups (coarse : r < 15) : c ∈ replaceGroups (r + 1) present ↔
    (c ∈ present ∧ ¬ (c.resolution = r + 1 ∧ ∀ sibling ∈ c.parent.children, sibling ∈ present)) ∨
      c.resolution = r ∧ ∀ child ∈ c.children, child ∈ present := by
  rw [replaceGroups, List.partition_eq_filter_filter]
  simp only [List.mem_append, List.mem_filter, List.mem_map, Function.comp_apply,
    Bool.not_eq_true', decide_eq_true_eq, decide_eq_false_iff_not]
  refine or_congr_right ⟨?_, ?_⟩
  · rintro ⟨d, ⟨_, level, complete⟩, rfl⟩
    exact ⟨by rw [Cell.resolution_parent]; omega, complete⟩
  · rintro ⟨rfl, complete⟩
    obtain ⟨child, sibling⟩ := Cell.exists_mem_children coarse
    have parent := Cell.parent_of_mem_children sibling
    exact ⟨child, ⟨complete child sibling, Cell.resolution_of_mem_children sibling,
      parent.symm ▸ complete⟩, parent⟩

/-- What is present when the levels down to `r` have been joined: the coarser members, the
generated cells of the level, and the finer ones that belong to no generated group. -/
def Joined (a : Finset Cell) (r : Nat) (present : List Cell) : Prop :=
  ∀ c : Cell, c ∈ present ↔
    if c.resolution < r then c ∈ a else Generated a c ∧ (r < c.resolution → ¬ Grouped a c)

theorem joined_start (present : List Cell) : Joined present.toFinset 15 present := by
  intro c
  have finest := c.resolution_le
  rw [← List.mem_toFinset]
  split
  · rfl
  · have bound : Within c.resolution present.toFinset := by
      intro d _
      have le := d.resolution_le
      omega
    exact ⟨fun there => ⟨.member there, by omega⟩, fun h => h.1.mem_of_finest bound⟩

theorem Joined.mem_level (h : Joined a r present) (level : c.resolution = r) :
    c ∈ present ↔ Generated a c := by
  rw [h c, if_neg level.not_lt]
  exact and_iff_left fun finer => absurd level finer.ne'

theorem Joined.forall_mem_children (h : Joined a (r + 1) present) (level : c.resolution = r) :
    (∀ child ∈ c.children, child ∈ present) ↔ ∀ child ∈ c.children, Generated a child := by
  refine forall₂_congr fun child sibling => h.mem_level ?_
  rw [Cell.resolution_of_mem_children sibling, level]

/-- One level: its complete groups are the generated ones, and their parents join. -/
theorem Joined.step (h : Joined a (r + 1) present) (coarse : r < 15) :
    Joined a r (replaceGroups (r + 1) present) := by
  intro c
  rw [mem_replaceGroups coarse]
  rcases Nat.lt_trichotomy c.resolution r with coarser | level | finer
  · have earlier := h c
    rw [if_pos (by omega)] at earlier
    simp only [earlier, coarser, if_true, coarser.ne, false_and, or_false,
      (show c.resolution ≠ r + 1 by omega), not_false_eq_true, and_true]
  · have earlier := h c
    rw [if_pos (by omega)] at earlier
    rw [h.forall_mem_children level, if_neg (by omega), earlier]
    constructor
    · rintro (⟨there, _⟩ | ⟨_, complete⟩)
      · exact ⟨.member there, by omega⟩
      · exact ⟨.group (by omega) complete, by omega⟩
    · rintro ⟨g, _⟩
      by_cases there : c ∈ a
      · exact .inl ⟨there, by omega⟩
      · exact .inr ⟨level, (g.children_of_notMem there).2⟩
  · rw [if_neg (by omega)]
    simp only [finer, forall_const, finer.ne', false_and, or_false]
    by_cases next : c.resolution = r + 1
    · have above : c.parent.resolution = r := by
        rw [Cell.resolution_parent]
        omega
      rw [h.mem_level next, h.forall_mem_children above]
      refine and_congr_right fun _ => not_congr ?_
      exact ⟨fun complete => ⟨by omega, complete.2⟩, fun grouped => ⟨next, grouped.siblings⟩⟩
    · have earlier := h c
      rw [if_neg (by omega)] at earlier
      simp only [earlier, next, false_and, not_false_eq_true, and_true,
        (show r + 1 < c.resolution by omega), forall_const]

theorem Joined.levelwise (h : Joined a r present) (fits : r ≤ 15) :
    Joined a 0 (levelwise r present) := by
  induction r generalizing present with
  | zero => exact h
  | succ r ih => exact ih (h.step fits) (Nat.le_of_succ_le fits)

/-- The rule leaves the generated cells that belong to no generated group. -/
theorem mem_levelwise : c ∈ levelwise 15 present ↔
    Generated present.toFinset c ∧ ¬ Grouped present.toFinset c := by
  rw [(joined_start present).levelwise le_rfl c, if_neg (Nat.not_lt_zero _)]
  refine and_congr_right fun _ => ⟨fun h grouped => h grouped.finer grouped, fun h _ => h⟩

end Rule

section Sets

variable {s t : CellSet} {c : Cell}

theorem Valid.exists_compactLevelwise (valid : Valid s) :
    ∃ u, compactLevelwise s = .ok u ∧ Valid u ∧
      ∀ c : Cell, c.id ∈ u ↔ Generated (cellsIn s) c ∧ ¬ Grouped (cellsIn s) c := by
  obtain ⟨cells, read⟩ := valid.exists_cellsOf
  refine ⟨idSet (levelwise 15 cells), ?_, valid_idSet _, fun c => ?_⟩
  · rw [compactLevelwise, read]
    rfl
  · rw [id_mem_idSet, mem_levelwise, toFinset_of_cellsOf read]

theorem compactLevelwise_eq_ok (hs : Valid s) (ht : Valid t)
    (members : ∀ c : Cell, c.id ∈ t ↔ Generated (cellsIn s) c ∧ ¬ Grouped (cellsIn s) c) :
    compactLevelwise s = .ok t := by
  obtain ⟨u, run, hu, members'⟩ := hs.exists_compactLevelwise
  have same : u = t := by
    apply hu.eq_of_cellsIn ht
    ext c
    rw [mem_cellsIn, mem_cellsIn, members, members']
  rw [run, same]

/-- On irredundant sets the rule gives what compaction returns. -/
theorem Layered.compactLevelwise_eq (hs : Valid s) (ht : Valid t)
    (layered : Layered 15 (cellsIn s) (cellsIn t)) (irredundant : Irredundant (cellsIn s)) :
    compactLevelwise s = .ok t := by
  refine compactLevelwise_eq_ok hs ht fun c => ?_
  rw [← mem_cellsIn]
  constructor
  · exact fun member => ⟨layered.generated c member,
      layered.not_grouped_of_mem (within_cellsIn s) le_rfl irredundant member⟩
  · exact fun h => layered.mem_of_not_grouped (within_cellsIn s) le_rfl h.1 h.2

theorem Valid.insert (valid : Valid s) (c : Cell) : Valid (s.insert c.id) := by
  intro id member
  rcases Std.ExtTreeSet.mem_insert.mp member with same | before
  · exact ⟨c, Std.LawfulEqCmp.compare_eq_iff_eq.mp same⟩
  · exact valid id before

theorem mem_cellsIn_insert {d : Cell} : d ∈ cellsIn (s.insert c.id) ↔ d = c ∨ d ∈ cellsIn s := by
  rw [mem_cellsIn, mem_cellsIn, Std.ExtTreeSet.mem_insert, Std.LawfulEqCmp.compare_eq_iff_eq]
  exact or_congr_left ⟨fun same => (Cell.id_injective same).symm, fun same => same ▸ rfl⟩

/-- A generated cell adds nothing to what a set generates. -/
theorem generated_insert_iff (g : Generated (cellsIn s) c) {d : Cell} :
    Generated (cellsIn (s.insert c.id)) d ↔ Generated (cellsIn s) d := by
  constructor
  · refine fun h => h.trans fun e member => ?_
    rcases mem_cellsIn_insert.mp member with rfl | before
    · exact g
    · exact .member before
  · exact fun h => h.mono fun e member => mem_cellsIn_insert.mpr (.inr member)

/-- A generated cell changes nothing for the rule. -/
theorem compactLevelwise_insert (valid : Valid s) (g : Generated (cellsIn s) c) :
    compactLevelwise (s.insert c.id) = compactLevelwise s := by
  obtain ⟨u, run, hu, members⟩ := valid.exists_compactLevelwise
  rw [run]
  refine compactLevelwise_eq_ok (valid.insert c) hu fun d => ?_
  have grouped : Grouped (cellsIn (s.insert c.id)) d ↔ Grouped (cellsIn s) d :=
    ⟨fun h => h.mono fun e => (generated_insert_iff g).mp,
      fun h => h.mono fun e => (generated_insert_iff g).mpr⟩
  rw [members, generated_insert_iff g, grouped]

end Sets

section Covered

variable {a b : Finset Cell} {c p : Cell} {n : Nat}

/-- A level without cells is passed over. -/
theorem Layered.raise (h : Layered n a b) (bound : Within n a) : Layered (n + 1) a b := by
  have nothing : atLevel (n + 1) a = ∅ := by
    refine Finset.filter_false_of_mem fun c member level => ?_
    have le := bound c member
    omega
  have pending : offLevel (n + 1) a ∪ offLevel (n + 1) ∅ = a := by
    have parts := atLevel_union_offLevel (n + 1) a
    rw [nothing, Finset.empty_union] at parts
    rw [parts, offLevel, Finset.filter_empty, Finset.union_empty]
  have merges : Merges (atLevel (n + 1) a) ∅ := nothing ▸ .refl
  have settled : Settled ∅ := settled_of_within_zero fun c member => absurd member (by simp)
  have next := Layered.next (b := b) merges settled (pending.symm ▸ h)
  rwa [atLevel, Finset.filter_empty, Finset.empty_union] at next

theorem Layered.raise_to_finest (h : Layered n a b) (bound : Within n a) (fits : n ≤ 15) :
    Layered 15 a b := by
  obtain ⟨k, last⟩ := Nat.exists_eq_add_of_le fits
  have raised : Layered (n + k) a b ∧ Within (n + k) a := by
    clear last
    induction k with
    | zero => exact ⟨h, bound⟩
    | succ k ih => exact ⟨ih.1.raise ih.2, fun c member => (ih.2 c member).trans (Nat.le_succ _)⟩
  exact last ▸ raised.1

/-- Cells without a complete group are returned as they are. -/
theorem Settled.layered (settled : Settled a) (bound : Within n a) : Layered n a a := by
  induction n generalizing a with
  | zero =>
    have single : atLevel 0 a = a := atLevel_eq_self fun c member => Nat.le_zero.mp (bound c member)
    exact .coarsest (single.symm ▸ .refl) settled
  | succ n ih =>
    have level : ∀ c ∈ atLevel (n + 1) a, c.resolution = n + 1 :=
      fun c => resolution_of_mem_atLevel
    have pending : offLevel (n + 1) a ∪ offLevel (n + 1) (atLevel (n + 1) a) =
        offLevel (n + 1) a := by
      rw [offLevel_eq_empty level, Finset.union_empty]
    have below := ih (settled.mono (offLevel_subset (n + 1) a)) bound.offLevel
    have next := Layered.next (b := offLevel (n + 1) a) .refl
      (settled.mono (atLevel_subset (n + 1) a)) (by rwa [pending])
    rwa [atLevel_eq_self level, atLevel_union_offLevel] at next

theorem settled_singleton (c : Cell) : Settled {c} := by
  intro p coarse
  obtain ⟨child, sibling, other⟩ := Cell.exists_other_child coarse c
  exact ⟨child, sibling, fun member => other (Finset.mem_singleton.mp member)⟩

/-- The descendants of a cell at one resolution are merged to the cell. -/
theorem merges_descendants (fits : p.resolution + n ≤ 15) :
    Merges (p.descendants n).toFinset {p} := by
  induction n with
  | zero => exact .refl
  | succ n ih =>
    have level : ∀ d ∈ (p.descendants n).dedup, d.resolution = p.resolution + n :=
      fun d member => (Cell.mem_descendants_iff.mp (List.mem_dedup.mp member)).1
    have complete : ∀ d ∈ (p.descendants n).dedup, ∀ child ∈ d.children,
        child ∈ (p.descendants (n + 1)).toFinset := by
      intro d member child sibling
      exact List.mem_toFinset.mpr (List.mem_flatMap.mpr ⟨d, List.mem_dedup.mp member, sibling⟩)
    have round := merges_groups (by omega) (List.nodup_dedup _) level complete
    have same : (p.descendants (n + 1)).toFinset \
        ((p.descendants n).dedup.flatMap Cell.children).toFinset ∪
          (p.descendants n).dedup.toFinset = (p.descendants n).toFinset := by
      ext d
      simp [Cell.descendants, List.mem_flatMap]
    exact (same ▸ round).trans (ih (by omega))

/-- A child beside all descendants of its parent two steps down. The parent is reached from
these in one go, and the child stays. -/
theorem layered_covered_child (fits : p.resolution + 2 ≤ 15) (child : c ∈ p.children) :
    Layered (p.resolution + 2) (insert c (p.descendants 2).toFinset) {p, c} := by
  have level := Cell.resolution_of_mem_children child
  have leaf {d : Cell} (h : d ∈ p.descendants 2) : d.resolution = p.resolution + 2 :=
    (Cell.mem_descendants_iff.mp h).1
  have finest : atLevel (p.resolution + 2) (insert c (p.descendants 2).toFinset) =
      (p.descendants 2).toFinset := by
    ext d
    simp only [atLevel, Finset.mem_filter, Finset.mem_insert, List.mem_toFinset]
    constructor
    · rintro ⟨rfl | here, fine⟩
      · omega
      · exact here
    · exact fun here => ⟨.inr here, leaf here⟩
  have pending : offLevel (p.resolution + 2) (insert c (p.descendants 2).toFinset) ∪
      offLevel (p.resolution + 2) {p} = {p, c} := by
    ext d
    simp only [offLevel, Finset.mem_union, Finset.mem_filter, Finset.mem_insert,
      List.mem_toFinset, Finset.mem_singleton]
    constructor
    · rintro (⟨rfl | here, other⟩ | ⟨same, _⟩)
      · exact .inr rfl
      · exact absurd (leaf here) other
      · exact .inl same
    · rintro (rfl | rfl)
      · exact .inr ⟨rfl, by omega⟩
      · exact .inl ⟨.inl rfl, by omega⟩
  have settled : Settled {p, c} := by
    rw [Finset.pair_comm]
    refine (settled_singleton c).union (settled_singleton p) (n := p.resolution) ?_ ?_
    · intro d member
      rw [Finset.mem_singleton.mp member]
      omega
    · intro d member
      rw [Finset.mem_singleton.mp member]
  have bound : Within (p.resolution + 1) {p, c} := by
    intro d member
    rcases Finset.mem_insert.mp member with rfl | last
    · exact Nat.le_succ _
    · rw [Finset.mem_singleton.mp last, level]
  have nothing : atLevel (p.resolution + 2) {p} = ∅ := by
    refine Finset.filter_false_of_mem fun d member => ?_
    rw [Finset.mem_singleton.mp member]
    omega
  have next := Layered.next (r := p.resolution + 1) (a := insert c (p.descendants 2).toFinset)
    (b := {p, c}) (finest.symm ▸ merges_descendants fits) (settled_singleton p)
    (by rw [pending]; exact settled.layered bound)
  rwa [nothing, Finset.empty_union] at next

/-- Compaction keeps a child that its parent covers. -/
theorem compact_covered_child (fits : p.resolution + 2 ≤ 15) (child : c ∈ p.children) :
    compact (idSet (c :: p.descendants 2)) = .ok (idSet [p, c]) := by
  refine compactWith_eq_ok compactLayer_mergesSiblings (valid_idSet _) (valid_idSet _) ?_
  simp only [cellsIn_idSet, List.toFinset_cons, List.toFinset_nil, insert_empty_eq]
  refine (layered_covered_child fits child).raise_to_finest (fun d member => ?_) fits
  rcases Finset.mem_insert.mp member with rfl | leaf
  · rw [Cell.resolution_of_mem_children child]
    omega
  · exact (Cell.mem_descendants_iff.mp (List.mem_toFinset.mp leaf)).1.le

theorem resolution_of_mem_descendants {d : Cell} (h : d ∈ cellsIn (idSet (p.descendants n))) :
    d.resolution = p.resolution + n := by
  rw [cellsIn_idSet, List.mem_toFinset] at h
  exact (Cell.mem_descendants_iff.mp h).1

theorem layered_descendants (fits : p.resolution + n ≤ 15) :
    Layered 15 (cellsIn (idSet (p.descendants n))) (cellsIn (idSet [p])) := by
  have level : ∀ d ∈ cellsIn (idSet (p.descendants n)), d.resolution = p.resolution + n :=
    fun d => resolution_of_mem_descendants
  obtain ⟨t, valid, layered⟩ := (valid_idSet (p.descendants n)).exists_compacted
  have compacts := layered.compacts (within_cellsIn _)
  have merged : Merges (cellsIn (idSet (p.descendants n))) {p} := by
    rw [cellsIn_idSet]
    exact merges_descendants fits
  have merges := compacts.merges (antichain_of_single level)
  have same := merges.unique level fits compacts.settled merged (settled_singleton p)
  rw [same] at layered
  rwa [cellsIn_idSet [p]]

/-- The descendants of a cell at one resolution give the cell, by compaction and by the
rule. -/
theorem compact_descendants (fits : p.resolution + n ≤ 15) :
    compact (idSet (p.descendants n)) = .ok (idSet [p]) ∧
      compactLevelwise (idSet (p.descendants n)) = .ok (idSet [p]) := by
  have layered := layered_descendants fits
  have irredundant := (antichain_of_single (r := p.resolution + n)
    fun d => resolution_of_mem_descendants (p := p)).irredundant
  exact ⟨compactWith_eq_ok compactLayer_mergesSiblings (valid_idSet _) (valid_idSet _) layered,
    layered.compactLevelwise_eq (valid_idSet _) (valid_idSet _) irredundant⟩

theorem filled_descendants (covers : p.Covers c) (le : c.resolution ≤ p.resolution + n) :
    Filled (cellsIn (idSet (p.descendants n))) (p.resolution + n) c := by
  refine filled_iff.mpr ⟨le, fun d level below => ?_⟩
  rw [cellsIn_idSet, List.mem_toFinset]
  exact Cell.mem_descendants_iff.mpr ⟨level, covers.trans below⟩

/-- The rule does not keep a child that its parent covers. -/
theorem compactLevelwise_covered_child (fits : p.resolution + 2 ≤ 15) (child : c ∈ p.children) :
    compactLevelwise (idSet (c :: p.descendants 2)) = .ok (idSet [p]) := by
  have level := Cell.resolution_of_mem_children child
  have filled := filled_descendants (Cell.covers_of_mem_children child) (n := 2) (by omega)
  have inserted : idSet (c :: p.descendants 2) = (idSet (p.descendants 2)).insert c.id := by
    apply (valid_idSet _).eq_of_cellsIn ((valid_idSet _).insert c)
    ext d
    rw [mem_cellsIn_insert, cellsIn_idSet, cellsIn_idSet, List.toFinset_cons, Finset.mem_insert]
  rw [inserted, compactLevelwise_insert (valid_idSet _) (filled.generated fits)]
  exact (compact_descendants fits).2

end Covered

/-- Compaction succeeds on cells of any resolutions and returns every cell of the level-by-level
rule. What it returns besides belongs to generated groups and is covered by cells of the rule.
There is no such cell if no cell of the set is generated by finer ones. The rule itself is
indifferent to a cell all of whose descendants at some resolution are in the set. -/
theorem compact_levelwise {s : CellSet} (valid : ∀ id ∈ s, ∃ r, resolutionOf id = .ok r) :
    ∃ t u, compact s = .ok t ∧ compactLevelwise s = .ok u ∧
      (∀ merge, MergesSiblings merge → compactWith merge s = .ok t) ∧
      (∀ c : Cell, c.id ∈ u ↔ c.id ∈ t ∧ ¬ Grouped (cellsIn s) c) ∧
      (∀ c : Cell, c.id ∈ t → ∃ d : Cell, d.id ∈ u ∧ d.Covers c) ∧
      (Irredundant (cellsIn s) → t = u) ∧
      ∀ (r : Resolution) (c : Cell), Filled (cellsIn s) r.val c →
        compactLevelwise (s.insert c.id) = .ok u := by
  have hs : Valid s := valid_of_resolutionOf valid
  obtain ⟨t, ht, layered⟩ := hs.exists_compacted
  obtain ⟨u, run, hu, members⟩ := hs.exists_compactLevelwise
  have returned (c : Cell) : c.id ∈ t ↔ c ∈ cellsIn t := mem_cellsIn.symm
  have common (c : Cell) : c.id ∈ u ↔ c.id ∈ t ∧ ¬ Grouped (cellsIn s) c := by
    rw [members, returned]
    refine ⟨fun h => ⟨?_, h.2⟩, fun h => ⟨layered.generated c h.1, h.2⟩⟩
    exact layered.mem_of_not_grouped (within_cellsIn s) le_rfl h.1 h.2
  refine ⟨t, u, compactWith_eq_ok compactLayer_mergesSiblings hs ht layered, run,
    fun merge merging => compactWith_eq_ok merging hs ht layered, common, fun c member => ?_,
    fun irredundant => ?_, fun r c filled => ?_⟩
  · obtain ⟨d, generated, topmost, covers⟩ :=
      (layered.generated c ((returned c).mp member)).exists_topmost
    exact ⟨d, (members d).mpr ⟨generated, topmost⟩, covers⟩
  · exact Except.ok.inj ((layered.compactLevelwise_eq hs ht irredundant).symm.trans run)
  · rw [compactLevelwise_insert hs (filled.generated (by omega)), run]

/-- The children of a pentagon do not overlap. -/
theorem compact_levelwise_pentagon_children :
    (∀ id ∈ idSet fifthPentagon.children, ∃ r, resolutionOf id = .ok r) ∧
      Irredundant (cellsIn (idSet fifthPentagon.children)) ∧
      ∃ t, compact (idSet fifthPentagon.children) = .ok t ∧
        compactLevelwise (idSet fifthPentagon.children) = .ok t ∧ fifthPentagon.id ∈ t := by
  have level : ∀ c ∈ cellsIn (idSet fifthPentagon.children), c.resolution = 1 := by
    intro c member
    rw [cellsIn_idSet, List.mem_toFinset] at member
    exact Cell.resolution_of_mem_children member
  have valid : ∀ id ∈ idSet fifthPentagon.children, ∃ r, resolutionOf id = .ok r := by
    intro id member
    obtain ⟨c, _, same⟩ := mem_idSet.mp member
    exact ⟨c.resolution, resolutionOf_eq_ok_iff.mpr ⟨c, same, rfl⟩⟩
  have irredundant := (antichain_of_single level).irredundant
  obtain ⟨t, u, compacted, ruled, _, _, _, agree, _⟩ := compact_levelwise valid
  obtain rfl := agree irredundant
  refine ⟨valid, irredundant, t, compacted, ruled, ?_⟩
  have whole := (compact_descendants (p := fifthPentagon) (n := 1) (by decide)).1
  have children : fifthPentagon.descendants 1 = fifthPentagon.children := List.flatMap_singleton _ _
  rw [children, compacted] at whole
  rw [Except.ok.inj whole, id_mem_idSet]
  exact List.mem_singleton_self _

/-- All descendants of the central child are there, and adding it changes the result. -/
theorem compact_covered_pentagon :
    Filled (cellsIn (idSet (fifthPentagon.descendants 2))) 2 centralPentagon ∧
      compact (idSet (fifthPentagon.descendants 2)) = .ok (idSet [fifthPentagon]) ∧
      compact (idSet (centralPentagon :: fifthPentagon.descendants 2)) =
        .ok (idSet [fifthPentagon, centralPentagon]) ∧
      compactLevelwise (idSet (centralPentagon :: fifthPentagon.descendants 2)) =
        .ok (idSet [fifthPentagon]) ∧
      idSet [fifthPentagon, centralPentagon] ≠ idSet [fifthPentagon] := by
  have child : centralPentagon ∈ fifthPentagon.children := by decide
  refine ⟨filled_descendants (n := 2) (Cell.covers_of_mem_children child) (by decide),
    (compact_descendants (by decide)).1, compact_covered_child (by decide) child,
    compactLevelwise_covered_child (by decide) child, fun same => ?_⟩
  have member : centralPentagon.id ∈ idSet [fifthPentagon, centralPentagon] :=
    id_mem_idSet.mpr (by simp)
  rw [same, id_mem_idSet] at member
  exact absurd member (by decide)

end HexCover.H3
