import HexCover.Proofs.H3.Packing

/-! The hierarchy of cells. A cell covers another if it is the other's ancestor at its
own resolution. Of two cells that cover a third, the coarser one covers the finer one.
The descendants of a cell at a resolution are the cells there that it covers, and only
cells of the finest resolution have none. -/
namespace HexCover.H3.Cell

variable {c d e p : Cell}

theorem resolution_ancestor (c : Cell) (n : Nat) :
    (c.ancestor n).resolution = min n c.resolution := by
  simp only [resolution, ancestor, List.length_take]

theorem ancestor_ancestor (c : Cell) (n m : Nat) :
    (c.ancestor n).ancestor m = c.ancestor (min m n) := by
  apply Cell.ext
  · rfl
  · simp only [ancestor, List.take_take]

theorem ancestor_of_le {n : Nat} (h : c.resolution ≤ n) : c.ancestor n = c :=
  Cell.ext rfl (List.take_of_length_le h)

/-- `c` is `d` or an ancestor of `d`. -/
def Covers (c d : Cell) : Prop := d.ancestor c.resolution = c

instance (c d : Cell) : Decidable (Covers c d) := inferInstanceAs (Decidable (_ = _))

theorem Covers.refl (c : Cell) : c.Covers c := ancestor_of_le (Nat.le_refl _)

theorem Covers.base_eq (h : c.Covers d) : d.base = c.base := by
  have same : (d.ancestor c.resolution).base = c.base := congrArg base h
  exact same

theorem Covers.take_digits (h : c.Covers d) : d.digits.take c.resolution = c.digits :=
  congrArg digits h

theorem Covers.resolution_le (h : c.Covers d) : c.resolution ≤ d.resolution := by
  have same := congrArg resolution h
  rw [resolution_ancestor] at same
  omega

theorem Covers.trans (h : c.Covers d) (h' : d.Covers e) : c.Covers e := by
  have le := h.resolution_le
  have joined := e.ancestor_ancestor d.resolution c.resolution
  rw [h', h, Nat.min_eq_left le] at joined
  exact joined.symm

theorem covers_ancestor (c : Cell) (n : Nat) : (c.ancestor n).Covers c := by
  rw [Covers, resolution_ancestor]
  rcases Nat.le_total n c.resolution with le | le
  · rw [Nat.min_eq_left le]
  · rw [Nat.min_eq_right le, ancestor_of_le le, ancestor_of_le (Nat.le_refl _)]

theorem Covers.of_le (h : c.Covers e) (h' : d.Covers e) (le : c.resolution ≤ d.resolution) :
    c.Covers d := by
  have joined := e.ancestor_ancestor d.resolution c.resolution
  rwa [h', Nat.min_eq_left le, h] at joined

theorem Covers.eq_of_le (h : c.Covers d) (le : d.resolution ≤ c.resolution) : c = d := by
  rw [← h, ancestor_of_le le]

theorem covers_parent (c : Cell) : c.parent.Covers c := c.covers_ancestor _

theorem resolution_parent (c : Cell) : c.parent.resolution = c.resolution - 1 := by
  rw [parent, resolution_ancestor]
  omega

theorem Covers.parent_of_lt (h : c.Covers d) (lt : c.resolution < d.resolution) :
    c.Covers d.parent := by
  apply h.of_le d.covers_parent
  rw [resolution_parent]
  omega

theorem eq_parent_iff (h : p.resolution + 1 = c.resolution) : c.parent = p ↔ p.Covers c := by
  rw [Covers, parent, ← h, Nat.add_sub_cancel]

theorem ofPath?_eq_some_iff {base : BaseCell} {digits : List Digit} :
    ofPath? base digits = some c ↔ c.base = base ∧ c.digits = digits := by
  constructor
  · intro h
    unfold ofPath? at h
    split at h
    · obtain rfl := Option.some.inj h
      exact ⟨rfl, rfl⟩
    · cases h
  · rintro ⟨rfl, rfl⟩
    exact c.ofPath?_eq_some

/-- The children of a cell are the cells one step finer that it covers. -/
theorem mem_children_iff : d ∈ c.children ↔ d.resolution = c.resolution + 1 ∧ c.Covers d := by
  simp only [children, List.mem_filterMap, List.mem_finRange, true_and, ofPath?_eq_some_iff]
  constructor
  · rintro ⟨x, base, digits⟩
    constructor
    · simp only [resolution, digits, List.length_append, List.length_singleton]
    · have initial : d.digits.take c.resolution = c.digits := by
        rw [digits, resolution, List.take_left]
      exact Cell.ext base initial
  · rintro ⟨length, covers⟩
    rw [resolution] at length
    have nonempty : d.digits ≠ [] := by
      intro empty
      simp [empty] at length
    have initial : d.digits.dropLast = c.digits := by
      rw [List.dropLast_eq_take, length, Nat.add_sub_cancel]
      exact covers.take_digits
    refine ⟨d.digits.getLast nonempty, covers.base_eq, ?_⟩
    rw [← initial, List.dropLast_concat_getLast]

theorem resolution_of_mem_children (h : d ∈ c.children) : d.resolution = c.resolution + 1 :=
  (mem_children_iff.mp h).1

theorem covers_of_mem_children (h : d ∈ c.children) : c.Covers d := (mem_children_iff.mp h).2

theorem mem_children_parent (h : 0 < c.resolution) : c ∈ c.parent.children := by
  refine mem_children_iff.mpr ⟨?_, c.covers_parent⟩
  rw [resolution_parent]
  omega

theorem parent_of_mem_children (h : d ∈ c.children) : d.parent = c :=
  (eq_parent_iff (resolution_of_mem_children h).symm).mpr (covers_of_mem_children h)

/-- The descendants of a cell are the finer cells that it covers. -/
theorem mem_descendants_iff {steps : Nat} :
    d ∈ c.descendants steps ↔ d.resolution = c.resolution + steps ∧ c.Covers d := by
  induction steps generalizing d with
  | zero =>
    rw [descendants, List.mem_singleton]
    constructor
    · rintro rfl
      exact ⟨rfl, .refl d⟩
    · rintro ⟨same, covers⟩
      exact (covers.eq_of_le (by omega)).symm
  | succ steps ih =>
    rw [descendants, List.mem_flatMap]
    constructor
    · rintro ⟨e, descendant, child⟩
      obtain ⟨resolution, covers⟩ := ih.mp descendant
      obtain ⟨finer, above⟩ := mem_children_iff.mp child
      exact ⟨by omega, covers.trans above⟩
    · rintro ⟨resolution, covers⟩
      have parent : d.parent ∈ c.descendants steps := by
        apply ih.mpr
        exact ⟨by rw [resolution_parent]; omega, covers.parent_of_lt (by omega)⟩
      exact ⟨d.parent, parent, mem_children_parent (by omega)⟩

theorem exists_child_covers (h : c.Covers d) (lt : c.resolution < d.resolution) :
    ∃ child ∈ c.children, child.Covers d := by
  have above := d.covers_ancestor (c.resolution + 1)
  have resolution : (d.ancestor (c.resolution + 1)).resolution = c.resolution + 1 := by
    rw [resolution_ancestor]
    omega
  refine ⟨_, mem_children_iff.mpr ⟨resolution, h.of_le above ?_⟩, above⟩
  omega

theorem leading_append_zero (digits : List Digit) : leading (digits ++ [0]) = leading digits := by
  have last : ([0] : List Digit).find? (· ≠ 0) = none := by decide
  rw [leading, List.find?_append, last, Option.or_none, leading]

def centralChild (c : Cell) (coarse : c.resolution < 15) : Cell where
  base := c.base
  digits := c.digits ++ [0]
  isPath := by
    refine ⟨?_, fun pentagon => ?_⟩
    · rw [List.length_append]
      exact coarse
    · rw [leading_append_zero]
      exact c.isPath.2 pentagon

theorem centralChild_mem_children (coarse : c.resolution < 15) :
    c.centralChild coarse ∈ c.children := by
  refine mem_children_iff.mpr ⟨?_, Cell.ext rfl ?_⟩
  · simp only [resolution, centralChild, List.length_append, List.length_singleton]
  · simp only [ancestor, resolution, centralChild, List.take_left]

theorem exists_mem_children (coarse : c.resolution < 15) : ∃ d, d ∈ c.children :=
  ⟨_, centralChild_mem_children coarse⟩

/-- The central child is the one whose last digit is 0. -/
theorem eq_centralChild (coarse : c.resolution < 15) (child : d ∈ c.children)
    (central : d.digits.getLast? = some 0) : d = c.centralChild coarse := by
  have covers := covers_of_mem_children child
  have finer : d.digits.length = c.resolution + 1 := resolution_of_mem_children child
  have initial := covers.take_digits
  apply Cell.ext
  · exact covers.base_eq
  · obtain ⟨before, same⟩ := List.getLast?_eq_some_iff.mp central
    have length : before.length = c.resolution := by
      have total := congrArg List.length same
      simp only [List.length_append, List.length_singleton] at total
      omega
    rw [same, ← length, List.take_left] at initial
    rw [same, initial, centralChild]

theorem leading_append_two {digits : List Digit} (h : leading digits ≠ 1) :
    leading (digits ++ [2]) ≠ 1 := by
  rw [leading, List.find?_append]
  cases found : digits.find? (· ≠ 0) with
  | none => decide
  | some d => rwa [leading, found] at h

/-- No cell is the only child of its parent. -/
theorem exists_other_child (coarse : c.resolution < 15) (d : Cell) :
    ∃ child ∈ c.children, child ≠ d := by
  have path : IsPath c.base (c.digits ++ [2]) := by
    refine ⟨?_, fun pentagon => leading_append_two (c.isPath.2 pentagon)⟩
    rw [List.length_append]
    exact coarse
  by_cases same : c.centralChild coarse = d
  · refine ⟨⟨c.base, c.digits ++ [2], path⟩, mem_children_iff.mpr ⟨?_, Cell.ext rfl ?_⟩, ?_⟩
    · simp only [resolution, List.length_append, List.length_singleton]
    · simp only [ancestor, resolution, List.take_left]
    · rintro rfl
      have digits := congrArg Cell.digits same
      simp only [centralChild, List.append_cancel_left_eq] at digits
      exact absurd digits (by decide)
  · exact ⟨_, centralChild_mem_children coarse, same⟩

end HexCover.H3.Cell
