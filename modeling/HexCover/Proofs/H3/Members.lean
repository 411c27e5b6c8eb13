import HexCover.H3.Compaction
import HexCover.Proofs.H3.Packing
import HexCover.Proofs.Outcome
import Mathlib.Data.Finset.Card
import Mathlib.Data.Finset.Dedup

/-! The cells of a set of identifiers. A set that holds identifiers of cells only is
listed without failure, each cell once. A list of cells and the set of their
identifiers have the same members. -/
namespace HexCover.H3

theorem resolutionOf_eq_ok_iff {id : CellId} {r : Nat} :
    resolutionOf id = .ok r ↔ ∃ c : Cell, c.id = id ∧ c.resolution = r := by
  simp only [resolutionOf, map_eq_ok_iff, Cell.ofId_eq_ok_iff]

/-- Every member is the identifier of a cell. -/
def Valid (s : CellSet) : Prop := ∀ id ∈ s, ∃ c : Cell, c.id = id

theorem valid_of_resolutionOf {s : CellSet} (h : ∀ id ∈ s, ∃ r, resolutionOf id = .ok r) :
    Valid s := by
  intro id member
  obtain ⟨r, resolution⟩ := h id member
  obtain ⟨c, same, _⟩ := resolutionOf_eq_ok_iff.mp resolution
  exact ⟨c, same⟩

theorem mapM_ofId_eq_ok_iff {ids : List CellId} {cells : List Cell} :
    ids.mapM Cell.ofId = .ok cells ↔ cells.map Cell.id = ids := by
  simp only [mapM_eq_ok_iff, Cell.ofId_eq_ok_iff]
  constructor
  · intro read
    induction read with
    | nil => rfl
    | cons head _ ih => rw [List.map_cons, head, ih]
  · rintro rfl
    induction cells with
    | nil => exact .nil
    | cons c cells ih => exact .cons rfl ih

theorem cellsOf_eq_ok_iff {s : CellSet} {cells : List Cell} :
    cellsOf s = .ok cells ↔ cells.map Cell.id = s.toList := mapM_ofId_eq_ok_iff

theorem Valid.exists_cellsOf {s : CellSet} (valid : Valid s) : ∃ cells, cellsOf s = .ok cells := by
  have every : ∀ id ∈ s.toList, ∃ c, Cell.ofId id = .ok c := by
    intro id member
    obtain ⟨c, same⟩ := valid id (Std.ExtTreeSet.mem_toList.mp member)
    exact ⟨c, Cell.ofId_eq_ok_iff.mpr same⟩
  exact ⟨_, mapM_eq_ok_filterMap every⟩

def cellsIn (s : CellSet) : Finset Cell := (s.toList.filterMap Cell.ofId?).toFinset

section

variable {s t : CellSet} {cells : List Cell}

theorem mem_cellsIn {c : Cell} : c ∈ cellsIn s ↔ c.id ∈ s := by
  rw [cellsIn, List.mem_toFinset, List.mem_filterMap, ← Std.ExtTreeSet.mem_toList]
  constructor
  · rintro ⟨id, member, read⟩
    rwa [Cell.ofId?_eq_some_iff.mp read]
  · intro member
    exact ⟨c.id, member, c.ofId?_id⟩

theorem Valid.eq_of_cellsIn (hs : Valid s) (ht : Valid t) (same : cellsIn s = cellsIn t) :
    s = t := by
  have agree (c : Cell) : c.id ∈ s ↔ c.id ∈ t := by rw [← mem_cellsIn, same, mem_cellsIn]
  apply Std.ExtTreeSet.ext_mem
  intro id
  constructor
  · intro member
    obtain ⟨c, rfl⟩ := hs id member
    exact (agree c).mp member
  · intro member
    obtain ⟨c, rfl⟩ := ht id member
    exact (agree c).mpr member

theorem toFinset_of_cellsOf (h : cellsOf s = .ok cells) : cells.toFinset = cellsIn s := by
  ext c
  rw [List.mem_toFinset, mem_cellsIn, ← Std.ExtTreeSet.mem_toList, ← cellsOf_eq_ok_iff.mp h,
    List.mem_map_of_injective fun _ _ => Cell.id_injective]

theorem Valid.card_cellsIn (valid : Valid s) : (cellsIn s).card = s.size := by
  obtain ⟨cells, read⟩ := valid.exists_cellsOf
  have listed := cellsOf_eq_ok_iff.mp read
  have distinct : (cells.map Cell.id).Pairwise (· ≠ ·) := by
    rw [listed]
    refine s.distinct_toList.imp fun differ same => ?_
    exact differ (Std.LawfulEqCmp.compare_eq_iff_eq.mpr same)
  have nodup : cells.Nodup := List.Nodup.of_map Cell.id distinct
  rw [← toFinset_of_cellsOf read, List.toFinset_card_of_nodup nodup, ← List.length_map Cell.id,
    listed, Std.ExtTreeSet.length_toList]

theorem mem_idSet {id : CellId} : id ∈ idSet cells ↔ ∃ c ∈ cells, c.id = id := by
  rw [idSet, CellSet.ofCells, Std.ExtTreeSet.mem_ofList, List.contains_iff_mem, List.mem_map]

theorem id_mem_idSet {c : Cell} : c.id ∈ idSet cells ↔ c ∈ cells := by
  rw [mem_idSet]
  constructor
  · rintro ⟨d, member, same⟩
    rwa [← Cell.id_injective same]
  · intro member
    exact ⟨c, member, rfl⟩

theorem valid_idSet (cells : List Cell) : Valid (idSet cells) := by
  intro id member
  obtain ⟨c, _, same⟩ := mem_idSet.mp member
  exact ⟨c, same⟩

theorem cellsIn_idSet (cells : List Cell) : cellsIn (idSet cells) = cells.toFinset := by
  ext c
  rw [mem_cellsIn, id_mem_idSet, List.mem_toFinset]

theorem size_idSet (nodup : cells.Nodup) : (idSet cells).size = cells.length := by
  rw [← (valid_idSet cells).card_cellsIn, cellsIn_idSet, List.toFinset_card_of_nodup nodup]

end

end HexCover.H3
