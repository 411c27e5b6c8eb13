import HexCover.Proofs.H3.Levels

/-! Cells that a set generates: its members, and every cell all of whose children it
generates. Compaction returns generated cells only, and among them all that belong to no
generated group. When one level is merged through several resolutions at once, the cells in
between do not join their levels. A member that is one of them can then outlast its group;
if no member is generated by finer ones, none does. -/
namespace HexCover.H3

/-- The closure of a set under taking the parent of a complete group. -/
inductive Generated (a : Finset Cell) : Cell → Prop
  | member {c : Cell} (present : c ∈ a) : Generated a c
  | group {p : Cell} (coarse : p.resolution < 15)
      (complete : ∀ child ∈ p.children, Generated a child) : Generated a p

/-- All siblings of `c`, itself among them, are generated. -/
structure Grouped (a : Finset Cell) (c : Cell) : Prop where
  finer : 0 < c.resolution
  siblings : ∀ sibling ∈ c.parent.children, Generated a sibling

/-- No member is generated by finer ones. -/
def Irredundant (a : Finset Cell) : Prop :=
  ∀ c ∈ a, c.resolution < 15 → ∃ child ∈ c.children, ¬ Generated a child

variable {a b m : Finset Cell} {c d p : Cell} {n r : Nat}

theorem Generated.trans (g : Generated a c) (h : ∀ d ∈ a, Generated b d) : Generated b c := by
  induction g with
  | member present => exact h _ present
  | group coarse _ ih => exact .group coarse ih

theorem Generated.mono (g : Generated a c) (sub : a ⊆ b) : Generated b c :=
  g.trans fun _ present => .member (sub present)

theorem Grouped.mono (h : Grouped a c) (sub : ∀ d, Generated a d → Generated b d) :
    Grouped b c :=
  ⟨h.finer, fun sibling member => sub sibling (h.siblings sibling member)⟩

theorem Grouped.generated (h : Grouped a c) : Generated a c :=
  h.siblings c (Cell.mem_children_parent h.finer)

theorem Grouped.parent (h : Grouped a c) : Generated a c.parent := by
  have bound := c.resolution_le
  have finer := h.finer
  exact .group (by rw [Cell.resolution_parent]; omega) h.siblings

theorem Grouped.of_children (child : d ∈ p.children)
    (complete : ∀ sibling ∈ p.children, Generated a sibling) : Grouped a d := by
  refine ⟨?_, ?_⟩
  · rw [Cell.resolution_of_mem_children child]
    exact Nat.succ_pos _
  · rwa [Cell.parent_of_mem_children child]

theorem Generated.children_of_notMem (g : Generated a c) (absent : c ∉ a) :
    c.resolution < 15 ∧ ∀ child ∈ c.children, Generated a child := by
  cases g with
  | member present => exact absurd present absent
  | group coarse complete => exact ⟨coarse, complete⟩

theorem Generated.resolution_le (g : Generated a c) (bound : Within n a) : c.resolution ≤ n := by
  induction g with
  | member present => exact bound _ present
  | group coarse _ ih =>
    obtain ⟨child, sibling⟩ := Cell.exists_mem_children coarse
    have le := ih child sibling
    rw [Cell.resolution_of_mem_children sibling] at le
    omega

/-- The finest cells that a set generates are members. -/
theorem Generated.mem_of_finest (g : Generated a c) (bound : Within c.resolution a) : c ∈ a := by
  by_contra absent
  obtain ⟨coarse, complete⟩ := g.children_of_notMem absent
  obtain ⟨child, sibling⟩ := Cell.exists_mem_children coarse
  have le := (complete child sibling).resolution_le bound
  rw [Cell.resolution_of_mem_children sibling] at le
  omega

theorem Generated.exists_member (g : Generated a c) : ∃ d ∈ a, c.Covers d := by
  induction g with
  | member present => exact ⟨_, present, .refl _⟩
  | group coarse _ ih =>
    obtain ⟨child, sibling⟩ := Cell.exists_mem_children coarse
    obtain ⟨d, present, covers⟩ := ih child sibling
    exact ⟨d, present, (Cell.covers_of_mem_children sibling).trans covers⟩

/-- Above every generated cell there is one that belongs to no generated group. -/
theorem Generated.exists_topmost (g : Generated a c) :
    ∃ d, Generated a d ∧ ¬ Grouped a d ∧ d.Covers c := by
  generalize level : c.resolution = n
  induction n generalizing c with
  | zero => exact ⟨c, g, fun h => h.finer.ne' level, .refl c⟩
  | succ n ih =>
    by_cases grouped : Grouped a c
    · have coarser : c.parent.resolution = n := by
        rw [Cell.resolution_parent]
        omega
      obtain ⟨d, generated, topmost, covers⟩ := ih grouped.parent coarser
      exact ⟨d, generated, topmost, covers.trans c.covers_parent⟩
    · exact ⟨c, g, grouped, .refl c⟩

/-- Cells that do not overlap are irredundant. -/
theorem Antichain.irredundant (apart : Antichain a) : Irredundant a := by
  intro c present coarse
  by_contra! complete
  obtain ⟨child, sibling⟩ := Cell.exists_mem_children coarse
  obtain ⟨d, present', covers⟩ := (complete child sibling).exists_member
  have below := Cell.covers_of_mem_children sibling
  obtain rfl := apart c present d present' (below.trans covers)
  have le := covers.resolution_le
  rw [Cell.resolution_of_mem_children sibling] at le
  omega

theorem Merges.generated (h : Merges a b) : ∀ c ∈ b, Generated a c := by
  induction h with
  | refl => exact fun _ present => .member present
  | tail _ step ih =>
    obtain ⟨p, coarse, complete⟩ := step
    intro c present
    rcases mem_mergeGroup.mp present with rfl | ⟨kept, _⟩
    · exact .group coarse fun child sibling => ih child (complete child sibling)
    · exact ih c kept

/-- A cell is generated if all its descendants at some resolution are there. -/
theorem Filled.generated (h : Filled a r c) (fits : r ≤ 15) : Generated a c := by
  generalize steps : r - c.resolution = k
  induction k generalizing c with
  | zero =>
    have le := h.1
    exact .member ((filled_iff.mp h).2 c (by omega) (.refl c))
  | succ k ih =>
    refine .group (by omega) fun child sibling => ?_
    obtain ⟨finer, below⟩ := Cell.mem_children_iff.mp sibling
    exact ih (h.of_covers below (by omega)) (by omega)

section Single

variable (single : ∀ c ∈ a, c.resolution = r)
include single

theorem Generated.filled (g : Generated a c) : Filled a r c := by
  induction g with
  | @member c present =>
    refine filled_iff.mpr ⟨(single c present).le, fun d fine covers => ?_⟩
    rwa [← covers.eq_of_le (by rw [fine, single c present])]
  | group coarse _ ih =>
    obtain ⟨child, sibling⟩ := Cell.exists_mem_children coarse
    have le := (ih child sibling).1
    rw [Cell.resolution_of_mem_children sibling] at le
    refine filled_iff.mpr ⟨by omega, fun d fine covers => ?_⟩
    obtain ⟨child, sibling, above⟩ := Cell.exists_child_covers covers (by omega)
    exact (filled_iff.mp (ih child sibling)).2 d fine above

theorem generated_iff_filled (fits : r ≤ 15) : Generated a c ↔ Filled a r c :=
  ⟨fun g => g.filled single, fun h => h.generated fits⟩

/-- Merging cells of one resolution leaves what belongs to no generated group. -/
theorem mem_merged_iff (fits : r ≤ 15) (merges : Merges a m) (settled : Settled m) :
    c ∈ m ↔ Generated a c ∧ ¬ Grouped a c := by
  have maximal := mem_iff_maximal (c := c) single merges.preserves fits settled
    (merges.antichain (antichain_of_single single))
  rw [maximal, ← generated_iff_filled single fits, ← generated_iff_filled single fits]
  refine and_congr_right fun g => ?_
  have le := g.resolution_le fun d present => (single d present).le
  constructor
  · rintro (coarsest | topmost) grouped
    · exact grouped.finer.ne' coarsest
    · exact topmost grouped.parent
  · intro topmost
    refine or_iff_not_imp_left.mpr fun finer above => topmost ⟨by omega, ?_⟩
    have absent : c.parent ∉ a := by
      intro present
      have level := single _ present
      rw [Cell.resolution_parent] at level
      omega
    exact (above.children_of_notMem absent).2

end Single

section Level

variable (bound : Within (r + 1) a) (fits : r + 1 ≤ 15) (merges : Merges (atLevel (r + 1) a) m)
  (settled : Settled m)

theorem notMem_atLevel (le : c.resolution ≤ r) : c ∉ atLevel (r + 1) a := by
  intro present
  have level := resolution_of_mem_atLevel present
  omega

include merges in
theorem Merges.generated_pending :
    ∀ d ∈ offLevel (r + 1) a ∪ offLevel (r + 1) m, Generated a d := by
  intro d present
  rcases Finset.mem_union.mp present with kept | joined
  · exact .member (offLevel_subset _ a kept)
  · exact (merges.generated d (offLevel_subset _ m joined)).mono (atLevel_subset _ a)

include fits merges settled in
theorem Merges.mem_merged_level :
    c ∈ m ↔ Generated (atLevel (r + 1) a) c ∧ ¬ Grouped (atLevel (r + 1) a) c :=
  mem_merged_iff (fun _ => resolution_of_mem_atLevel) fits merges settled

include bound fits merges settled

/-- What a set generates is generated by the level alone or by what is left for the coarser
levels. -/
theorem Merges.generated_level_or_pending (g : Generated a c) :
    Generated (atLevel (r + 1) a) c ∨
      Generated (offLevel (r + 1) a ∪ offLevel (r + 1) m) c := by
  induction g with
  | @member c present =>
    by_cases level : c.resolution = r + 1
    · exact .inl (.member (Finset.mem_filter.mpr ⟨present, level⟩))
    · exact .inr (.member (Finset.mem_union_left _ (Finset.mem_filter.mpr ⟨present, level⟩)))
  | @group p coarse complete ih =>
    by_cases within : ∀ child ∈ p.children, Generated (atLevel (r + 1) a) child
    · exact .inl (.group coarse within)
    · -- one child is not generated by the level, so that the others are not merged further
      push Not at within
      obtain ⟨other, sibling', outside⟩ := within
      refine .inr (.group coarse fun child sibling => ?_)
      rcases ih child sibling with inside | pending
      · have merged : child ∈ m := by
          refine (merges.mem_merged_level fits settled).mpr ⟨inside, fun grouped => outside ?_⟩
          have all := grouped.siblings
          rw [Cell.parent_of_mem_children sibling] at all
          exact all other sibling'
        have coarser : child.resolution ≠ r + 1 := by
          intro level
          have level' : other.resolution = r + 1 := by
            rw [← level, Cell.resolution_of_mem_children sibling,
              Cell.resolution_of_mem_children sibling']
          have present := (complete other sibling').mem_of_finest (level' ▸ bound)
          exact outside (.member (Finset.mem_filter.mpr ⟨present, level'⟩))
        exact .member (Finset.mem_union_right _ (Finset.mem_filter.mpr ⟨merged, coarser⟩))
      · exact pending

variable (irredundant : Irredundant a)
include irredundant

/-- In an irredundant set no cell is generated twice, but for those that a level hands on. -/
theorem Irredundant.mem_of_generated_twice
    (pending : Generated (offLevel (r + 1) a ∪ offLevel (r + 1) m) c)
    (level : Generated (atLevel (r + 1) a) c) : c ∈ m := by
  have coarser {d : Cell} (g : Generated (offLevel (r + 1) a ∪ offLevel (r + 1) m) d) :
      d ∉ atLevel (r + 1) a :=
    notMem_atLevel (g.resolution_le (merges.within_pending bound))
  induction pending with
  | @member c present =>
    obtain ⟨coarse, complete⟩ := level.children_of_notMem (coarser (.member present))
    rcases Finset.mem_union.mp present with kept | joined
    · obtain ⟨child, sibling, missing⟩ := irredundant c (offLevel_subset _ a kept) coarse
      exact absurd ((complete child sibling).mono (atLevel_subset _ a)) missing
    · exact offLevel_subset _ m joined
  | @group p coarse below ih =>
    obtain ⟨_, complete⟩ := level.children_of_notMem (coarser (.group coarse below))
    obtain ⟨child, sibling⟩ := Cell.exists_mem_children coarse
    have merged := ih child sibling (complete child sibling)
    have topmost := ((merges.mem_merged_level fits settled).mp merged).2
    exact absurd (.of_children sibling complete) topmost

theorem Irredundant.pending : Irredundant (offLevel (r + 1) a ∪ offLevel (r + 1) m) := by
  intro c present coarse
  by_contra! below
  rcases Finset.mem_union.mp present with kept | joined
  · obtain ⟨child, sibling, missing⟩ := irredundant c (offLevel_subset _ a kept) coarse
    exact missing ((below child sibling).trans merges.generated_pending)
  · have le := merges.within_pending bound c present
    have level := merges.generated c (offLevel_subset _ m joined)
    obtain ⟨_, complete⟩ := level.children_of_notMem (notMem_atLevel le)
    obtain ⟨child, sibling⟩ := Cell.exists_mem_children coarse
    have merged := irredundant.mem_of_generated_twice bound fits merges settled
      (below child sibling) (complete child sibling)
    have topmost := ((merges.mem_merged_level fits settled).mp merged).2
    exact topmost (.of_children sibling complete)

end Level

theorem Layered.generated (h : Layered r a b) : ∀ c ∈ b, Generated a c := by
  induction h with
  | coarsest merges _ =>
    exact fun c present => (merges.generated c present).mono (atLevel_subset _ _)
  | next merges _ _ ih =>
    intro c present
    rcases Finset.mem_union.mp present with here | below
    · exact (merges.generated c (atLevel_subset _ _ here)).mono (atLevel_subset _ _)
    · exact (ih c below).trans merges.generated_pending

/-- Compaction returns every generated cell that belongs to no generated group. -/
theorem Layered.mem_of_not_grouped (h : Layered r a b) (bound : Within r a) (fits : r ≤ 15)
    (g : Generated a c) (topmost : ¬ Grouped a c) : c ∈ b := by
  induction h with
  | @coarsest a b merges settled =>
    rw [atLevel_eq_self fun c member => Nat.le_zero.mp (bound c member)] at merges
    have single : ∀ c ∈ a, c.resolution = 0 := fun c member => Nat.le_zero.mp (bound c member)
    exact (mem_merged_iff single fits merges settled).mpr ⟨g, topmost⟩
  | @next r a m b merges settled below ih =>
    have later (pending : Generated (offLevel (r + 1) a ∪ offLevel (r + 1) m) c) :
        c ∈ atLevel (r + 1) m ∪ b := by
      refine Finset.mem_union_right _ (ih (merges.within_pending bound) (by omega) pending ?_)
      exact fun grouped => topmost (grouped.mono fun d g => g.trans merges.generated_pending)
    rcases merges.generated_level_or_pending bound fits settled g with level | pending
    · have merged : c ∈ m := by
        refine (merges.mem_merged_level fits settled).mpr ⟨level, fun grouped => topmost ?_⟩
        exact grouped.mono fun d g => g.mono (atLevel_subset _ a)
      by_cases here : c.resolution = r + 1
      · exact Finset.mem_union_left _ (Finset.mem_filter.mpr ⟨merged, here⟩)
      · exact later (.member (Finset.mem_union_right _ (Finset.mem_filter.mpr ⟨merged, here⟩)))
    · exact later pending

/-- From an irredundant set compaction returns nothing else. -/
theorem Layered.not_grouped_of_mem (h : Layered r a b) (bound : Within r a) (fits : r ≤ 15)
    (irredundant : Irredundant a) (present : c ∈ b) : ¬ Grouped a c := by
  induction h with
  | coarsest merges _ =>
    intro grouped
    have le := ((merges.generated c present).mono (atLevel_subset _ _)).resolution_le bound
    exact grouped.finer.not_ge le
  | @next r a m b merges settled below ih =>
    intro grouped
    have merged_iff {d : Cell} := merges.mem_merged_level (c := d) fits settled
    rcases Finset.mem_union.mp present with here | later
    · -- the siblings are of the finest level, so that they are there from the start
      have level := resolution_of_mem_atLevel here
      refine (merged_iff.mp (atLevel_subset _ m here)).2 ⟨grouped.finer, fun sibling member => ?_⟩
      have finest : sibling.resolution = r + 1 := by
        rw [Cell.resolution_of_mem_children member, Cell.resolution_parent]
        omega
      have there := (grouped.siblings sibling member).mem_of_finest (finest ▸ bound)
      exact .member (Finset.mem_filter.mpr ⟨there, finest⟩)
    · have pending := below.generated c later
      have le := pending.resolution_le (merges.within_pending bound)
      refine ih (merges.within_pending bound) (by omega)
        (irredundant.pending bound fits merges settled) later ⟨grouped.finer, ?_⟩
      intro sibling member
      have coarser : sibling.resolution ≠ r + 1 := by
        have finer := grouped.finer
        rw [Cell.resolution_of_mem_children member, Cell.resolution_parent]
        omega
      rcases merges.generated_level_or_pending bound fits settled
        (grouped.siblings sibling member) with level | joined
      · by_cases merged : sibling ∈ m
        · exact .member (Finset.mem_union_right _ (Finset.mem_filter.mpr ⟨merged, coarser⟩))
        · -- the group is merged further in one go, although `c` is there on its own
          have whole : Grouped (atLevel (r + 1) a) sibling := by
            by_contra topmost
            exact merged (merged_iff.mpr ⟨level, topmost⟩)
          have all := whole.siblings
          rw [Cell.parent_of_mem_children member] at all
          have whole' : Grouped (atLevel (r + 1) a) c := ⟨grouped.finer, all⟩
          have twice := irredundant.mem_of_generated_twice bound fits merges settled pending
            whole'.generated
          exact absurd whole' (merged_iff.mp twice).2
      · exact joined

end HexCover.H3
