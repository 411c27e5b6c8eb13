import HexCover.Proofs.H3.Ancestry
import Mathlib.Data.Finset.Card
import Mathlib.Data.Finset.Insert
import Mathlib.Data.Finset.SDiff
import Mathlib.Logic.Relation

/-! Merging of sibling groups. One step replaces the children of a cell, all of which
have to be there, by the cell. A step keeps the area that the cells cover, makes none of
them finer, and does not add to their number. When no step is left, cells that came from
one resolution are the coarsest ones whose descendants were all there. -/
namespace HexCover.H3

/-- Cells with the children of `p` replaced by `p`. -/
def mergeGroup (a : Finset Cell) (p : Cell) : Finset Cell := insert p (a \ p.children.toFinset)

/-- One complete group of siblings is replaced by its parent. -/
inductive MergeStep : Finset Cell → Finset Cell → Prop
  | group {a : Finset Cell} (p : Cell) (coarse : p.resolution < 15)
      (complete : ∀ child ∈ p.children, child ∈ a) : MergeStep a (mergeGroup a p)

/-- Complete groups are replaced any number of times. -/
abbrev Merges : Finset Cell → Finset Cell → Prop := Relation.ReflTransGen MergeStep

/-- No group is complete. -/
def Settled (a : Finset Cell) : Prop :=
  ∀ p : Cell, p.resolution < 15 → ∃ child ∈ p.children, child ∉ a

/-- All cells are of resolution `n` or coarser. -/
def Within (n : Nat) (a : Finset Cell) : Prop := ∀ c ∈ a, c.resolution ≤ n

/-- Some cell of the set covers `d`. -/
def Reaches (a : Finset Cell) (d : Cell) : Prop := ∃ c ∈ a, c.Covers d

/-- No cell of the set covers another one. -/
def Antichain (a : Finset Cell) : Prop := ∀ c ∈ a, ∀ d ∈ a, c.Covers d → c = d

/-- What merging from `a` to `b` keeps: the cells become coarser only and not more
numerous, and cover the same cells of every resolution at least as fine as theirs. -/
structure Preserves (a b : Finset Cell) : Prop where
  within : ∀ n, Within n a → Within n b
  reaches : ∀ n d, Within n a → n ≤ d.resolution → (Reaches b d ↔ Reaches a d)
  card_le : b.card ≤ a.card

variable {a b x : Finset Cell} {c d p : Cell} {n r : Nat}

theorem mem_mergeGroup : c ∈ mergeGroup a p ↔ c = p ∨ c ∈ a ∧ c ∉ p.children := by
  simp only [mergeGroup, Finset.mem_insert, Finset.mem_sdiff, List.mem_toFinset]

theorem Within.mono (h : Within n a) (sub : b ⊆ a) : Within n b := fun c member => h c (sub member)

theorem Within.union (ha : Within n a) (hb : Within n b) : Within n (a ∪ b) := by
  intro c member
  rcases Finset.mem_union.mp member with left | right
  · exact ha c left
  · exact hb c right

theorem reaches_union : Reaches (a ∪ b) d ↔ Reaches a d ∨ Reaches b d := by
  simp only [Reaches, Finset.mem_union, or_and_right, exists_or]

theorem Preserves.refl (a : Finset Cell) : Preserves a a :=
  ⟨fun _ h => h, fun _ _ _ _ => .rfl, le_rfl⟩

theorem Preserves.trans {e : Finset Cell} (h : Preserves a b) (h' : Preserves b e) :
    Preserves a e where
  within n bound := h'.within n (h.within n bound)
  reaches n d bound fine :=
    (h'.reaches n d (h.within n bound) fine).trans (h.reaches n d bound fine)
  card_le := h'.card_le.trans h.card_le

theorem lt_of_complete (coarse : p.resolution < 15) (complete : ∀ child ∈ p.children, child ∈ a)
    (bound : Within n a) : p.resolution < n := by
  obtain ⟨child, member⟩ := Cell.exists_mem_children coarse
  have fits := bound child (complete child member)
  rw [Cell.resolution_of_mem_children member] at fits
  exact fits

theorem MergeStep.within (h : MergeStep a b) (bound : Within n a) : Within n b := by
  obtain ⟨p, coarse, complete⟩ := h
  intro c member
  rcases mem_mergeGroup.mp member with rfl | ⟨kept, _⟩
  · exact (lt_of_complete coarse complete bound).le
  · exact bound c kept

theorem MergeStep.reaches_iff (h : MergeStep a b) (bound : Within n a) (fine : n ≤ d.resolution) :
    Reaches b d ↔ Reaches a d := by
  obtain ⟨p, coarse, complete⟩ := h
  constructor
  · rintro ⟨c, member, covers⟩
    rcases mem_mergeGroup.mp member with rfl | ⟨kept, _⟩
    · have finer := (lt_of_complete coarse complete bound).trans_le fine
      obtain ⟨child, sibling, above⟩ := Cell.exists_child_covers covers finer
      exact ⟨child, complete child sibling, above⟩
    · exact ⟨c, kept, covers⟩
  · rintro ⟨c, member, covers⟩
    by_cases sibling : c ∈ p.children
    · exact ⟨p, mem_mergeGroup.mpr (.inl rfl), (Cell.covers_of_mem_children sibling).trans covers⟩
    · exact ⟨c, mem_mergeGroup.mpr (.inr ⟨member, sibling⟩), covers⟩

theorem MergeStep.card_le (h : MergeStep a b) : b.card ≤ a.card := by
  obtain ⟨p, coarse, complete⟩ := h
  have group : p.children.toFinset ⊆ a := fun c member => complete c (List.mem_toFinset.mp member)
  obtain ⟨child, member⟩ := Cell.exists_mem_children coarse
  have nonempty : 0 < p.children.toFinset.card :=
    Finset.card_pos.mpr ⟨child, List.mem_toFinset.mpr member⟩
  have inserted := Finset.card_insert_le p (a \ p.children.toFinset)
  have removed := Finset.card_sdiff_add_card_eq_card group
  rw [mergeGroup]
  omega

theorem MergeStep.preserves (h : MergeStep a b) : Preserves a b :=
  ⟨fun _ => h.within, fun _ _ => h.reaches_iff, h.card_le⟩

theorem MergeStep.antichain (h : MergeStep a b) (apart : Antichain a) : Antichain b := by
  obtain ⟨p, coarse, complete⟩ := h
  intro c hc d hd covers
  rcases mem_mergeGroup.mp hc with rfl | ⟨c_mem, c_kept⟩
  · rcases mem_mergeGroup.mp hd with rfl | ⟨d_mem, d_kept⟩
    · rfl
    · -- a cell below the new parent is one of the children or below one
      by_contra ne
      have finer : c.resolution < d.resolution := by
        by_contra le
        exact ne (covers.eq_of_le (by omega))
      obtain ⟨child, sibling, above⟩ := Cell.exists_child_covers covers finer
      obtain rfl := apart child (complete child sibling) d d_mem above
      exact d_kept sibling
  · rcases mem_mergeGroup.mp hd with rfl | ⟨d_mem, d_kept⟩
    · -- a cell above the new parent is above its children
      obtain ⟨child, sibling⟩ := Cell.exists_mem_children coarse
      have below := Cell.covers_of_mem_children sibling
      obtain rfl := apart c c_mem child (complete child sibling) (covers.trans below)
      exact absurd sibling c_kept
    · exact apart c c_mem d d_mem covers

theorem Merges.preserves (h : Merges a b) : Preserves a b := by
  induction h with
  | refl => exact .refl a
  | tail _ step ih => exact ih.trans step.preserves

theorem Merges.antichain (h : Merges a b) (apart : Antichain a) : Antichain b := by
  induction h with
  | refl => exact apart
  | tail _ step ih => exact step.antichain ih

theorem Settled.eq_of_merges (settled : Settled a) (h : Merges a b) : b = a := by
  induction h with
  | refl => rfl
  | tail _ step ih =>
    subst ih
    obtain ⟨p, coarse, complete⟩ := step
    obtain ⟨child, sibling, absent⟩ := settled p coarse
    exact absurd (complete child sibling) absent

theorem Settled.mono (settled : Settled a) (sub : b ⊆ a) : Settled b := by
  intro p coarse
  obtain ⟨child, sibling, absent⟩ := settled p coarse
  exact ⟨child, sibling, fun member => absent (sub member)⟩

theorem settled_of_within_zero (bound : Within 0 a) : Settled a := by
  intro p coarse
  obtain ⟨child, sibling⟩ := Cell.exists_mem_children coarse
  refine ⟨child, sibling, fun member => ?_⟩
  have le := bound child member
  rw [Cell.resolution_of_mem_children sibling] at le
  omega

/-- Finer and coarser cells have no group in common. -/
theorem Settled.union (ha : Settled a) (hb : Settled b) (fine : ∀ c ∈ a, n < c.resolution)
    (bound : Within n b) : Settled (a ∪ b) := by
  intro p coarse
  rcases Nat.lt_or_ge n (p.resolution + 1) with finer | coarser
  · obtain ⟨child, sibling, absent⟩ := ha p coarse
    refine ⟨child, sibling, fun member => ?_⟩
    rcases Finset.mem_union.mp member with left | right
    · exact absent left
    · have fits := bound child right
      rw [Cell.resolution_of_mem_children sibling] at fits
      omega
  · obtain ⟨child, sibling, absent⟩ := hb p coarse
    refine ⟨child, sibling, fun member => ?_⟩
    rcases Finset.mem_union.mp member with left | right
    · have fits := fine child left
      rw [Cell.resolution_of_mem_children sibling] at fits
      omega
    · exact absent right

theorem Preserves.union_right (h : Preserves a b) (apart : Disjoint a x) :
    Preserves (a ∪ x) (b ∪ x) where
  within n bound := by
    have left := h.within n (bound.mono Finset.subset_union_left)
    exact left.union (bound.mono Finset.subset_union_right)
  reaches n d bound fine := by
    rw [reaches_union, reaches_union, h.reaches n d (bound.mono Finset.subset_union_left) fine]
  card_le := by
    rw [Finset.card_union_of_disjoint apart]
    exact (Finset.card_union_le b x).trans (Nat.add_le_add_right h.card_le _)

theorem Antichain.mono (apart : Antichain a) (sub : b ⊆ a) : Antichain b :=
  fun c hc d hd covers => apart c (sub hc) d (sub hd) covers

/-- Merging goes on beside other cells, if no cell covers another one: then these belong
to none of the groups, and are no parent of one. -/
theorem Merges.union_right (h : Merges a b) (apart : Antichain (a ∪ x)) (disjoint : Disjoint a x) :
    Merges (a ∪ x) (b ∪ x) ∧ Disjoint b x := by
  induction h with
  | refl => exact ⟨.refl, disjoint⟩
  | @tail e _ _ step ih =>
    obtain ⟨before, disjoint⟩ := ih
    have apart := before.antichain apart
    obtain ⟨p, coarse, complete⟩ := step
    have aside : ∀ c ∈ x, c ∉ p.children := by
      intro c member sibling
      exact Finset.disjoint_left.mp disjoint (complete c sibling) member
    have fresh : p ∉ x := by
      intro member
      obtain ⟨child, sibling⟩ := Cell.exists_mem_children coarse
      have below := Cell.covers_of_mem_children sibling
      have same := apart p (Finset.mem_union_right _ member) child
        (Finset.mem_union_left _ (complete child sibling)) below
      exact aside p member (same ▸ sibling)
    have same : mergeGroup e p ∪ x = mergeGroup (e ∪ x) p := by
      ext c
      have := aside c
      simp only [Finset.mem_union, mem_mergeGroup]
      tauto
    constructor
    · rw [same]
      refine before.tail (.group p coarse fun child sibling => ?_)
      exact Finset.mem_union_left _ (complete child sibling)
    · refine Finset.disjoint_left.mpr fun c member => ?_
      rcases mem_mergeGroup.mp member with rfl | ⟨kept, _⟩
      · exact fresh
      · exact Finset.disjoint_left.mp disjoint kept

section Maximal

/-- All descendants of `c` at resolution `r` belong to the set. -/
def Filled (a : Finset Cell) (r : Nat) (c : Cell) : Prop :=
  c.resolution ≤ r ∧ ∀ d ∈ c.descendants (r - c.resolution), d ∈ a

theorem filled_iff : Filled a r c ↔
    c.resolution ≤ r ∧ ∀ d, d.resolution = r → c.Covers d → d ∈ a := by
  refine and_congr_right fun le => ?_
  simp only [Cell.mem_descendants_iff, and_imp, Nat.add_sub_cancel' le]

theorem Filled.of_covers (h : Filled a r c) (covers : c.Covers d) (le : d.resolution ≤ r) :
    Filled a r d := by
  refine filled_iff.mpr ⟨le, fun e resolution below => ?_⟩
  exact (filled_iff.mp h).2 e resolution (covers.trans below)

theorem reaches_iff_mem (single : ∀ c ∈ a, c.resolution = r) (fine : d.resolution = r) :
    Reaches a d ↔ d ∈ a := by
  constructor
  · rintro ⟨c, member, covers⟩
    rwa [covers.eq_of_le (by rw [fine, single c member])] at member
  · intro member
    exact ⟨d, member, .refl d⟩

theorem antichain_of_single (single : ∀ c ∈ a, c.resolution = r) : Antichain a := by
  intro c hc d hd covers
  exact covers.eq_of_le (by rw [single c hc, single d hd])

variable (single : ∀ c ∈ a, c.resolution = r) (kept : Preserves a b)
include single kept

theorem within_of_single : Within r b := kept.within r fun c member => (single c member).le

theorem reaches_of_single (fine : d.resolution = r) : Reaches b d ↔ d ∈ a := by
  rw [kept.reaches r d (fun c member => (single c member).le) fine.ge,
    reaches_iff_mem single fine]

theorem filled_of_mem (member : c ∈ b) : Filled a r c := by
  refine filled_iff.mpr ⟨within_of_single single kept c member, fun d fine covers => ?_⟩
  exact (reaches_of_single single kept fine).mp ⟨c, member, covers⟩

theorem reaches_of_filled (fits : r ≤ 15) (settled : Settled b) (h : Filled a r p) :
    Reaches b p := by
  -- by induction from the finest cells up: one child is not there, so that it is reached
  -- from above, and so is the parent
  generalize steps : r - p.resolution = k
  induction k generalizing p with
  | zero =>
    have le := h.1
    have fine : p.resolution = r := by omega
    exact (reaches_of_single single kept fine).mpr ((filled_iff.mp h).2 p fine (.refl p))
  | succ k ih =>
    obtain ⟨child, sibling, absent⟩ := settled p (by omega)
    obtain ⟨finer, below⟩ := Cell.mem_children_iff.mp sibling
    obtain ⟨c, member, covers⟩ := ih (h.of_covers below (by omega)) (by omega)
    refine ⟨c, member, covers.of_le below ?_⟩
    by_contra lt
    obtain rfl := covers.eq_of_le (by omega)
    exact absent member

/-- The cells that are left are the coarsest filled ones. -/
theorem mem_iff_maximal (fits : r ≤ 15) (settled : Settled b) (apart : Antichain b) :
    c ∈ b ↔ Filled a r c ∧ (c.resolution = 0 ∨ ¬ Filled a r c.parent) := by
  constructor
  · intro member
    refine ⟨filled_of_mem single kept member, or_iff_not_imp_left.mpr fun finer above => ?_⟩
    obtain ⟨d, higher, covers⟩ := reaches_of_filled single kept fits settled above
    obtain rfl := apart d higher c member (covers.trans c.covers_parent)
    have le := covers.resolution_le
    rw [Cell.resolution_parent] at le
    omega
  · rintro ⟨filled, topmost⟩
    obtain ⟨d, member, covers⟩ := reaches_of_filled single kept fits settled filled
    rcases covers.resolution_le.lt_or_eq with lt | same
    · have above : Filled a r c.parent := by
        apply (filled_of_mem single kept member).of_covers (covers.parent_of_lt lt)
        rw [Cell.resolution_parent]
        exact (Nat.sub_le _ _).trans filled.1
      rcases topmost with base | gap
      · omega
      · exact absurd above gap
    · rwa [← covers.eq_of_le same.ge]

end Maximal

/-- What a set of one resolution is merged to is determined. -/
theorem Merges.unique (single : ∀ c ∈ a, c.resolution = r) (fits : r ≤ 15)
    (hb : Merges a b) (settled : Settled b) (hx : Merges a x) (settled' : Settled x) : b = x := by
  have apart := antichain_of_single single
  ext c
  rw [mem_iff_maximal single hb.preserves fits settled (hb.antichain apart),
    mem_iff_maximal single hx.preserves fits settled' (hx.antichain apart)]

end HexCover.H3
