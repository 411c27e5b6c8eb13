import HexCover.H3.Indexer
import HexCover.Proofs.H3.Ancestry
import HexCover.Proofs.H3.Members

/-! The cells that cover a geometry have the resolution that was asked for: the cell of a
position has it, a lattice path between two cells of it stays in it, and going down the
hierarchy ends there. -/
namespace HexCover.H3

theorem resolution_of_ofPath? {base : BaseCell} {digits : List Digit} {c : Cell}
    (h : Cell.ofPath? base digits = some c) : c.resolution = digits.length := by
  unfold Cell.ofPath? at h
  split at h
  · obtain rfl := Option.some.inj h
    rfl
  · contradiction

theorem resolution_of_mem_pathCells {c d e : Cell} (h : e ∈ pathCells c d) :
    e.resolution = c.resolution := by
  obtain ⟨n, _, path⟩ := List.mem_filterMap.mp h
  rw [resolution_of_ofPath? path, Point.length_ascend]
  rfl

theorem resolution_of_mem_inside {polygon : Polygon Float} {extent : Extent} {steps : Nat}
    {c d : Cell} (h : d ∈ Cell.inside polygon extent steps c) :
    d.resolution = c.resolution + steps := by
  induction steps generalizing c with
  | zero =>
    -- the search ends at a cell, which is kept or not
    unfold Cell.inside at h
    split at h
    · obtain rfl := List.mem_singleton.mp h
      rfl
    · contradiction
  | succ steps ih =>
    unfold Cell.inside at h
    split at h
    · obtain ⟨child, member, inside⟩ := List.mem_flatMap.mp h
      rw [ih inside, Cell.resolution_of_mem_children member]
      omega
    · contradiction

section

variable {r : Resolution}

theorem resolution_of_mem_lineCells {line : List (Coord Float)} {c : Cell}
    (h : c ∈ lineCells r line) : c.resolution = r.val := by
  obtain ⟨⟨p, q⟩, _, path⟩ := List.mem_flatMap.mp h
  rw [resolution_of_mem_pathCells path]
  exact resolution_locate _ r

theorem resolution_of_mem_polygonCells {p : Polygon Float} {c : Cell}
    (h : c ∈ polygonCells r p) : c.resolution = r.val := by
  obtain ⟨base, member, inside⟩ := List.mem_flatMap.mp h
  obtain ⟨b, _, path⟩ := List.mem_filterMap.mp member
  rw [resolution_of_mem_inside inside, resolution_of_ofPath? path, List.length_nil, Nat.zero_add]

mutual

theorem resolution_of_mem_coverCells : (g : Geometry Float) → {c : Cell} →
    c ∈ coverCells r g → c.resolution = r.val
  | .point p, c, h => by
    obtain rfl := List.mem_singleton.mp h
    exact resolution_locate _ r
  | .lineString line, c, h => resolution_of_mem_lineCells h
  | .polygon p, c, h => resolution_of_mem_polygonCells h
  | .multiPoint ps, c, h => by
    obtain ⟨p, _, rfl⟩ := List.mem_map.mp h
    exact resolution_locate _ r
  | .multiLineString lines, c, h => by
    obtain ⟨line, _, member⟩ := List.mem_flatMap.mp h
    exact resolution_of_mem_lineCells member
  | .multiPolygon ps, c, h => by
    obtain ⟨p, _, member⟩ := List.mem_flatMap.mp h
    exact resolution_of_mem_polygonCells member
  | .collection members, c, h => resolution_of_mem_coverMembers members h

theorem resolution_of_mem_coverMembers : (gs : List (Geometry Float)) → {c : Cell} →
    c ∈ coverMembers r gs → c.resolution = r.val
  | [], c, h => by contradiction
  | g :: gs, c, h => by
    rcases List.mem_append.mp h with first | rest
    · exact resolution_of_mem_coverCells g first
    · exact resolution_of_mem_coverMembers gs rest

end

end

theorem resolutionOf_of_mem_coverIds (r : Resolution) (g : Geometry Float) (ids : List CellId)
    (h : coverIds r g = .ok ids) : ∀ id ∈ ids, resolutionOf id = .ok r.val := by
  intro id member
  unfold coverIds at h
  split at h
  · next cells covered =>
    obtain ⟨_, _, same⟩ := bind_eq_ok_iff.mp covered
    obtain rfl := Except.ok.inj same
    obtain rfl := Except.ok.inj h
    obtain ⟨c, inside, rfl⟩ := List.mem_map.mp member
    exact resolutionOf_eq_ok_iff.mpr ⟨c, rfl, resolution_of_mem_coverCells g inside⟩
  · contradiction

section Parts

variable {r : Resolution}

theorem coverIds_eq (g : Geometry Float) :
    coverIds r g = ((checkPlacement g).mapError PlacementFault.message).map fun _ =>
      (coverCells r g).map Cell.id := by
  rw [coverIds, cover]
  cases checkPlacement g <;> rfl

theorem exists_coverIds_eq_error_iff {g : Geometry Float} :
    (∃ text, coverIds r g = .error text) ↔ checkPlacement g ≠ .ok () := by
  rw [coverIds_eq]
  cases checkPlacement g <;> simp [Except.mapError, Except.map]

theorem coverIds_eq_ok_iff {g : Geometry Float} {ids : List CellId} :
    coverIds r g = .ok ids ↔ checkPlacement g = .ok () ∧ (coverCells r g).map Cell.id = ids := by
  rw [coverIds_eq]
  cases checkPlacement g <;> simp [Except.mapError, Except.map]

theorem checkPlacements_eq_ok_iff {gs : List (Geometry Float)} :
    checkPlacements gs = .ok () ↔ ∀ g ∈ gs, checkPlacement g = .ok () := by
  induction gs with
  | nil => simp [checkPlacements]
  | cons g gs ih =>
    rw [checkPlacements, seq_eq_ok_iff, List.forall_mem_cons, ih]

theorem mem_coverMembers {gs : List (Geometry Float)} {c : Cell} :
    c ∈ coverMembers r gs ↔ ∃ g ∈ gs, c ∈ coverCells r g := by
  induction gs with
  | nil => simp [coverMembers]
  | cons g gs ih => simp [coverMembers, ih]

end Parts

end HexCover.H3
