import HexCover.Raster.Groups
import Mathlib.Data.List.Basic

/-! Groupings by their contents. A grouping is determined by its keys and by the cells
of each key. Merging two groupings joins their keys and, for each key, its cells,
whichever of the two is added to the other one. The grouping of a list of cells with
keys has the keys of the list and, for each key, its cells in the list; merging the
groupings of two lists gives the grouping of both together. -/
namespace HexCover.Raster.Groups

/-- The cells of a key; none for a key that is not there. -/
def cells (g : Groups) (key : Key) : CellSet := g[key]?.getD ∅

theorem getElem?_of_mem {g : Groups} {key : Key} (h : key ∈ g) : g[key]? = some (g.cells key) := by
  rw [Std.ExtTreeMap.mem_iff_isSome_getElem?] at h
  obtain ⟨s, found⟩ := Option.isSome_iff_exists.mp h
  simp [cells, found]

theorem mem_of_mem_cells {g : Groups} {key : Key} {cell : CellId} (h : cell ∈ g.cells key) :
    key ∈ g := by
  by_contra absent
  simp [cells, Std.ExtTreeMap.getElem?_eq_none absent] at h

theorem cells_of_not_mem {g : Groups} {key : Key} (h : key ∉ g) : g.cells key = ∅ := by
  rw [cells, Std.ExtTreeMap.getElem?_eq_none h]
  rfl

theorem mem_toList_iff {g : Groups} {key : Key} {s : CellSet} :
    (key, s) ∈ g.toList ↔ key ∈ g ∧ g.cells key = s := by
  rw [Std.ExtTreeMap.mem_toList_iff_getElem?_eq_some]
  constructor
  · intro found
    have present : key ∈ g := Std.ExtTreeMap.mem_iff_isSome_getElem?.mpr (by simp [found])
    exact ⟨present, by simp [cells, found]⟩
  · rintro ⟨present, rfl⟩
    exact getElem?_of_mem present

/-- The rows of a grouping list the cells of every key. -/
theorem mem_rows_iff {g : Groups} {key : Key} {cell : CellId} :
    (key, cell) ∈ g.rows ↔ cell ∈ g.cells key := by
  constructor
  · intro member
    obtain ⟨⟨key', s⟩, entry, listed⟩ := List.mem_flatMap.mp member
    obtain ⟨cell', inside, same⟩ := List.mem_map.mp listed
    cases same
    rw [(mem_toList_iff.mp entry).2]
    exact Std.ExtTreeSet.mem_toList.mp inside
  · intro inside
    have entry := mem_toList_iff.mpr ⟨mem_of_mem_cells inside, rfl⟩
    refine List.mem_flatMap.mpr ⟨_, entry, List.mem_map.mpr ⟨cell, ?_, rfl⟩⟩
    exact Std.ExtTreeSet.mem_toList.mpr inside

theorem ext_cells {g h : Groups} (keys : ∀ key, key ∈ g ↔ key ∈ h)
    (same : ∀ key cell, cell ∈ g.cells key ↔ cell ∈ h.cells key) : g = h := by
  apply Std.ExtTreeMap.ext_getElem?
  intro key
  by_cases present : key ∈ g
  · have equal : g.cells key = h.cells key := Std.ExtTreeSet.ext_mem fun cell => same key cell
    rw [getElem?_of_mem present, getElem?_of_mem ((keys key).mp present), equal]
  · rw [Std.ExtTreeMap.getElem?_eq_none present,
      Std.ExtTreeMap.getElem?_eq_none (mt (keys key).mpr present)]

section Restrict

variable {g : Groups} {keeps : Key → Prop} [DecidablePred keeps] {key : Key}

def restrict (g : Groups) (keeps : Key → Prop) [DecidablePred keeps] : Groups :=
  g.filter fun key _ => keeps key

theorem mem_restrict : key ∈ g.restrict keeps ↔ key ∈ g ∧ keeps key := by
  simp [restrict, Std.ExtTreeMap.mem_filter]

theorem getElem?_restrict : (g.restrict keeps)[key]? = if keeps key then g[key]? else none := by
  by_cases kept : keeps key
  · simp only [restrict, Std.ExtTreeMap.getElem?_filter', kept, decide_true, if_true]
    cases g[key]? <;> rfl
  · have absent : key ∉ g.restrict keeps := fun present => kept (mem_restrict.mp present).2
    rw [if_neg kept, Std.ExtTreeMap.getElem?_eq_none absent]

theorem cells_restrict (kept : keeps key) : (g.restrict keeps).cells key = g.cells key := by
  rw [cells, getElem?_restrict, if_pos kept, cells]

theorem mem_cells_restrict {cell : CellId} :
    cell ∈ (g.restrict keeps).cells key ↔ cell ∈ g.cells key ∧ keeps key := by
  by_cases kept : keeps key
  · rw [cells_restrict kept, and_iff_left kept]
  · rw [cells_of_not_mem fun present => kept (mem_restrict.mp present).2]
    simp [kept]

end Restrict

theorem mem_addCells {g : Groups} {key key' : Key} {s : CellSet} :
    key' ∈ g.addCells key s ↔ key' = key ∨ key' ∈ g := by
  by_cases same : key = key'
  · simp [addCells, same]
  · simp [addCells, Std.ExtTreeMap.mem_alter, same, Ne.symm same]

theorem mem_cells_addCells {g : Groups} {key key' : Key} {s : CellSet} {cell : CellId} :
    cell ∈ (g.addCells key s).cells key' ↔ cell ∈ g.cells key' ∨ key' = key ∧ cell ∈ s := by
  by_cases same : key = key'
  · simp [addCells, cells, same, Std.ExtTreeSet.mem_union_iff]
  · simp [addCells, cells, Std.ExtTreeMap.getElem?_alter, same, Ne.symm same]

theorem add_eq_addCells (g : Groups) (key : Key) (cell : CellId) :
    g.add key cell = g.addCells key ((∅ : CellSet).insert cell) := by
  have same (s : CellSet) : s.insert cell = s ∪ (∅ : CellSet).insert cell := by
    apply Std.ExtTreeSet.ext_mem
    intro cell'
    simp [Std.ExtTreeSet.mem_union_iff, or_comm]
  unfold add addCells
  congr 1
  funext present
  rw [same]

theorem mem_foldl_addCells {parts : List (Key × CellSet)} {g : Groups} {key : Key} :
    key ∈ parts.foldl (fun g part => g.addCells part.1 part.2) g ↔
      key ∈ g ∨ ∃ part ∈ parts, part.1 = key := by
  induction parts generalizing g with
  | nil => simp
  | cons part parts ih =>
    rw [List.foldl_cons, ih, mem_addCells]
    simp only [List.mem_cons, exists_eq_or_imp, eq_comm (a := key)]
    tauto

theorem mem_cells_foldl_addCells {parts : List (Key × CellSet)} {g : Groups} {key : Key}
    {cell : CellId} :
    cell ∈ (parts.foldl (fun g part => g.addCells part.1 part.2) g).cells key ↔
      cell ∈ g.cells key ∨ ∃ part ∈ parts, part.1 = key ∧ cell ∈ part.2 := by
  induction parts generalizing g with
  | nil => simp
  | cons part parts ih =>
    rw [List.foldl_cons, ih, mem_cells_addCells]
    simp only [List.mem_cons, exists_eq_or_imp, eq_comm (a := key)]
    tauto

theorem mem_absorb {g h : Groups} {key : Key} : key ∈ absorb g h ↔ key ∈ g ∨ key ∈ h := by
  rw [absorb, Std.ExtTreeMap.foldl_eq_foldl_toList, mem_foldl_addCells]
  apply or_congr_right
  constructor
  · rintro ⟨part, member, rfl⟩
    have found := Std.ExtTreeMap.mem_toList_iff_getElem?_eq_some.mp member
    exact Std.ExtTreeMap.mem_iff_isSome_getElem?.mpr (by simp [found])
  · intro present
    refine ⟨(key, h.cells key), ?_, rfl⟩
    exact Std.ExtTreeMap.mem_toList_iff_getElem?_eq_some.mpr (getElem?_of_mem present)

theorem mem_cells_absorb {g h : Groups} {key : Key} {cell : CellId} :
    cell ∈ (absorb g h).cells key ↔ cell ∈ g.cells key ∨ cell ∈ h.cells key := by
  rw [absorb, Std.ExtTreeMap.foldl_eq_foldl_toList, mem_cells_foldl_addCells]
  apply or_congr_right
  constructor
  · rintro ⟨⟨key', s⟩, member, rfl, inside⟩
    have found := Std.ExtTreeMap.mem_toList_iff_getElem?_eq_some.mp member
    simpa [cells, found] using inside
  · intro inside
    have found : h[key]? = some (h.cells key) := by
      cases entry : h[key]? with
      | none => simp [cells, entry] at inside
      | some s => simp [cells, entry]
    have entry := Std.ExtTreeMap.mem_toList_iff_getElem?_eq_some.mpr found
    exact ⟨(key, h.cells key), entry, rfl, inside⟩

/-- The keys of two merged groupings are the keys of either. -/
theorem mem_merge {g h : Groups} {key : Key} : key ∈ g.merge h ↔ key ∈ g ∨ key ∈ h := by
  unfold merge
  split
  · rw [mem_absorb, or_comm]
  · exact mem_absorb

/-- The cells of a key in two merged groupings are its cells in either. -/
theorem mem_cells_merge {g h : Groups} {key : Key} {cell : CellId} :
    cell ∈ (g.merge h).cells key ↔ cell ∈ g.cells key ∨ cell ∈ h.cells key := by
  unfold merge
  split
  · rw [mem_cells_absorb, or_comm]
  · exact mem_cells_absorb

def ofPairs (pairs : List (Key × CellId)) : Groups :=
  pairs.foldl (fun g pair => g.add pair.1 pair.2) ∅

theorem ofPairs_eq_foldl_addCells (pairs : List (Key × CellId)) :
    ofPairs pairs = (pairs.map fun pair => (pair.1, (∅ : CellSet).insert pair.2)).foldl
      (fun g part => g.addCells part.1 part.2) ∅ := by
  simp only [ofPairs, add_eq_addCells, List.foldl_map]

theorem mem_ofPairs {pairs : List (Key × CellId)} {key : Key} :
    key ∈ ofPairs pairs ↔ ∃ cell, (key, cell) ∈ pairs := by
  rw [ofPairs_eq_foldl_addCells, mem_foldl_addCells]
  simp

theorem mem_cells_ofPairs {pairs : List (Key × CellId)} {key : Key} {cell : CellId} :
    cell ∈ (ofPairs pairs).cells key ↔ (key, cell) ∈ pairs := by
  rw [ofPairs_eq_foldl_addCells, mem_cells_foldl_addCells]
  simp [cells]

theorem merge_ofPairs (first second : List (Key × CellId)) :
    (ofPairs first).merge (ofPairs second) = ofPairs (first ++ second) := by
  apply ext_cells
  · intro key
    simp only [mem_merge, mem_ofPairs, List.mem_append, exists_or]
  · intro key cell
    simp only [mem_cells_merge, mem_cells_ofPairs, List.mem_append]

end HexCover.Raster.Groups
