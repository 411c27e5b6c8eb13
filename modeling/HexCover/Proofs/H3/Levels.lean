import HexCover.Proofs.H3.Merging

/-! Compaction level by level, from the finest one. The cells of a level are merged; what
stays there is final, and what has become coarser joins the coarser cells. Each level is
taken once, since merging makes cells coarser only. The result is determined by the cells,
keeps their area, and has no complete group left, not even between the results of
different levels. -/
namespace HexCover.H3

def atLevel (r : Nat) (a : Finset Cell) : Finset Cell := a.filter fun c => c.resolution = r

def offLevel (r : Nat) (a : Finset Cell) : Finset Cell := a.filter fun c => c.resolution ≠ r

/-- The levels from `r` to the coarsest are merged one after the other. -/
inductive Layered : Nat → Finset Cell → Finset Cell → Prop
  | coarsest {a b : Finset Cell} : Merges (atLevel 0 a) b → Settled b → Layered 0 a b
  | next {r : Nat} {a m b : Finset Cell} : Merges (atLevel (r + 1) a) m → Settled m →
      Layered r (offLevel (r + 1) a ∪ offLevel (r + 1) m) b →
      Layered (r + 1) a (atLevel (r + 1) m ∪ b)

/-- What compaction from `a` to `b` achieves. Cells that do not overlap are merged as a
whole, and cells without a complete group are left alone. -/
structure Compacts (a b : Finset Cell) : Prop where
  preserves : Preserves a b
  settled : Settled b
  merges : Antichain a → Merges a b
  fixed : Settled a → b = a

variable {a b m : Finset Cell} {r : Nat}

theorem resolution_of_mem_atLevel {c : Cell} (h : c ∈ atLevel r a) : c.resolution = r :=
  (Finset.mem_filter.mp h).2

theorem atLevel_subset (r : Nat) (a : Finset Cell) : atLevel r a ⊆ a := Finset.filter_subset _ a

theorem offLevel_subset (r : Nat) (a : Finset Cell) : offLevel r a ⊆ a := Finset.filter_subset _ a

theorem atLevel_union_offLevel (r : Nat) (a : Finset Cell) : atLevel r a ∪ offLevel r a = a :=
  Finset.filter_union_filter_not_eq _ a

theorem disjoint_levels (r : Nat) (a b : Finset Cell) : Disjoint (atLevel r a) (offLevel r b) :=
  Finset.disjoint_left.mpr fun _ here elsewhere =>
    (Finset.mem_filter.mp elsewhere).2 (resolution_of_mem_atLevel here)

theorem Within.offLevel (h : Within (r + 1) a) : Within r (offLevel (r + 1) a) := by
  intro c member
  obtain ⟨kept, ne⟩ := Finset.mem_filter.mp member
  have le := h c kept
  omega

theorem atLevel_eq_self (h : ∀ c ∈ a, c.resolution = r) : atLevel r a = a :=
  Finset.filter_true_of_mem h

theorem offLevel_eq_empty (h : ∀ c ∈ a, c.resolution = r) : offLevel r a = ∅ :=
  Finset.filter_false_of_mem fun c member ne => ne (h c member)

theorem Compacts.of_merges (h : Merges a b) (settled : Settled b) : Compacts a b :=
  ⟨h.preserves, settled, fun _ => h, fun before => before.eq_of_merges h⟩

theorem disjoint_pending (r : Nat) (a m : Finset Cell) :
    Disjoint (offLevel r a ∪ offLevel r m) (atLevel r m) :=
  Finset.disjoint_union_left.mpr ⟨(disjoint_levels r m a).symm, (disjoint_levels r m m).symm⟩

theorem regroup_levels (r : Nat) (a m : Finset Cell) :
    m ∪ offLevel r a = offLevel r a ∪ offLevel r m ∪ atLevel r m := by
  rw [Finset.union_assoc, Finset.union_comm (offLevel r m), atLevel_union_offLevel,
    Finset.union_comm]

theorem Merges.within_pending (h : Merges (atLevel (r + 1) a) m) (bound : Within (r + 1) a) :
    Within r (offLevel (r + 1) a ∪ offLevel (r + 1) m) := by
  have m_bound := h.preserves.within (r + 1) (bound.mono (atLevel_subset _ a))
  exact bound.offLevel.union m_bound.offLevel

section Level

variable (h : Merges (atLevel r a) m)
include h

/-- A level is merged beside the coarser cells, then these beside what is left of it. -/
theorem Merges.preserves_level (below : Preserves (offLevel r a ∪ offLevel r m) b) :
    Preserves a (b ∪ atLevel r m) := by
  have first := h.preserves.union_right (disjoint_levels r a a)
  rw [atLevel_union_offLevel, regroup_levels] at first
  exact first.trans (below.union_right (disjoint_pending r a m))

theorem Merges.merges_level (apart : Antichain a)
    (below : Antichain (offLevel r a ∪ offLevel r m) → Merges (offLevel r a ∪ offLevel r m) b) :
    Merges a (b ∪ atLevel r m) := by
  rw [← atLevel_union_offLevel r a] at apart
  have first := (h.union_right apart (disjoint_levels r a a)).1
  have apart' := first.antichain apart
  rw [atLevel_union_offLevel, regroup_levels] at first
  rw [regroup_levels] at apart'
  have second := below (apart'.mono Finset.subset_union_left)
  exact first.trans (second.union_right apart' (disjoint_pending r a m)).1

/-- A level without a complete group stays, and nothing joins the coarser cells. -/
theorem Merges.levels_of_settled (before : Settled a) :
    atLevel r m = atLevel r a ∧ offLevel r m = ∅ := by
  have same := (before.mono (atLevel_subset r a)).eq_of_merges h
  have single : ∀ c ∈ m, c.resolution = r := by
    rw [same]
    exact fun c => resolution_of_mem_atLevel
  exact ⟨(atLevel_eq_self single).trans same, offLevel_eq_empty single⟩

end Level

theorem Compacts.next (bound : Within (r + 1) a) (h : Merges (atLevel (r + 1) a) m)
    (settled : Settled m)
    (below : Compacts (offLevel (r + 1) a ∪ offLevel (r + 1) m) b) :
    Compacts a (b ∪ atLevel (r + 1) m) where
  preserves := h.preserves_level below.preserves
  settled := by
    have fine : ∀ c ∈ atLevel (r + 1) m, r < c.resolution := by
      intro c member
      rw [resolution_of_mem_atLevel member]
      exact r.lt_succ_self
    have here := settled.mono (atLevel_subset (r + 1) m)
    rw [Finset.union_comm]
    exact here.union below.settled fine (below.preserves.within r (h.within_pending bound))
  merges apart := h.merges_level apart below.merges
  fixed before := by
    obtain ⟨same, nothing⟩ := h.levels_of_settled before
    have pending : offLevel (r + 1) a ∪ offLevel (r + 1) m ⊆ a := by
      rw [nothing, Finset.union_empty]
      exact offLevel_subset (r + 1) a
    rw [below.fixed (before.mono pending), same, nothing, Finset.union_empty, Finset.union_comm,
      atLevel_union_offLevel]

theorem Layered.compacts (h : Layered r a b) (bound : Within r a) : Compacts a b := by
  induction h with
  | coarsest merges settled =>
    rw [atLevel_eq_self fun c member => Nat.le_zero.mp (bound c member)] at merges
    exact .of_merges merges settled
  | next merges settled _ ih =>
    rw [Finset.union_comm]
    exact .next bound merges settled (ih (merges.within_pending bound))

theorem Layered.unique {b' : Finset Cell} (h : Layered r a b) (h' : Layered r a b')
    (fits : r ≤ 15) : b = b' := by
  induction h generalizing b' with
  | coarsest merges settled =>
    cases h' with
    | coarsest merges' settled' =>
      exact merges.unique (fun c => resolution_of_mem_atLevel) fits settled merges' settled'
  | next merges settled _ ih =>
    cases h' with
    | next merges' settled' below' =>
      obtain rfl := merges.unique (fun c => resolution_of_mem_atLevel) fits settled merges' settled'
      rw [ih below' (by omega)]

end HexCover.H3
