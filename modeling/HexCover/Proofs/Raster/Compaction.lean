import HexCover.H3.Grid
import HexCover.Proofs.H3.Compaction
import HexCover.Proofs.Raster.Keys
import HexCover.Proofs.Raster.Scan
import HexCover.Raster.Convert

/-! Compaction of rasters. What a scan finds does not depend on its workers, and the cells
it finds for a key are cells of the resolution that was asked for. So the cells of each key
condense on their own, compaction of all groups succeeds, and it neither joins keys nor
drops them. The way positions are looked up is left open; all that counts is that a cell
that is found has the resolution that was asked for. -/
namespace HexCover.Raster

namespace Groups

variable {g : Grid} {pool : WorkerPool} {groups compacted : Groups}

/-- Compaction keeps the keys and compacts the cells of each key on their own. -/
theorem compact_eq_ok (h : groups.compact g pool = .ok compacted) :
    (∀ key, key ∈ compacted ↔ key ∈ groups) ∧
      ∀ key ∈ groups, g.compact (groups.cells key) = .ok (compacted.cells key) := by
  obtain ⟨entries, collected, last⟩ := bind_eq_ok_iff.mp h
  obtain rfl : Std.ExtTreeMap.ofList entries compare = compacted := Except.ok.inj last
  have run := pool.collect_map_eq_ok_iff.mp collected
  -- entries are collected in the order of the groups, so their keys differ as well
  have keys : groups.toList.map Prod.fst = entries.map Prod.fst := by
    apply (congrFun₂ List.forall₂_eq_eq_eq _ _).mp
    rw [List.forall₂_map_left_iff, List.forall₂_map_right_iff]
    refine (mapM_eq_ok_iff.mp run).imp fun entry entry' compacts => ?_
    obtain ⟨s, _, rfl⟩ := map_eq_ok_iff.mp compacts
    rfl
  have distinct : entries.Pairwise fun a b => ¬ compare a.1 b.1 = .eq := by
    have listed := groups.distinct_keys_toList
    rw [← List.pairwise_map (f := Prod.fst) (R := fun a b => ¬ compare a b = .eq)] at listed ⊢
    rwa [← keys]
  constructor
  · intro key
    rw [Std.ExtTreeMap.mem_ofList, List.contains_iff_mem, ← keys,
      Std.ExtTreeMap.map_fst_toList_eq_keys, Std.ExtTreeMap.mem_keys]
  · intro key present
    obtain ⟨entry, member, compacts⟩ :=
      exists_mem_of_mapM_eq_ok run (mem_toList_iff.mpr ⟨present, rfl⟩)
    obtain ⟨s, succeeds, rfl⟩ := map_eq_ok_iff.mp compacts
    rw [succeeds, cells,
      Std.ExtTreeMap.getElem?_ofList_of_mem Std.ReflCmp.compare_self distinct member]
    rfl

/-- Compaction of groups fails only where compaction of the cells of a key does. -/
theorem exists_compact (h : ∀ key ∈ groups, ∃ s, g.compact (groups.cells key) = .ok s) :
    ∃ compacted, groups.compact g pool = .ok compacted := by
  have good : ∀ entry ∈ groups.toList,
      ∃ entry', (g.compact entry.2).map (fun s => (entry.1, s)) = .ok entry' := by
    rintro ⟨key, s⟩ member
    obtain ⟨present, rfl⟩ := mem_toList_iff.mp member
    obtain ⟨s, run⟩ := h key present
    exact ⟨(key, s), by rw [run]; rfl⟩
  have collected := pool.collect_map_eq_ok_iff.mpr (mapM_eq_ok_filterMap good)
  exact ⟨_, bind_eq_ok_iff.mpr ⟨_, collected, rfl⟩⟩

end Groups

def Task.request (task : Task) (nodata : Option (Pixel task.array.type)) (tolerance : Double) :
    Request task.array.type where
  pixels := task.array.pixels
  transform := task.transform
  axis := task.axis
  resolution := task.resolution
  nodata := nodata
  tolerance := tolerance

/-- The cells that rows list with a key. -/
def cellsWith (rows : List (Key × CellId)) (key : Key) : CellSet :=
  .ofCells ((rows.filter fun row => row.1 = key).map Prod.snd)

theorem mem_cellsWith {rows : List (Key × CellId)} {key : Key} {cell : CellId} :
    cell ∈ cellsWith rows key ↔ (key, cell) ∈ rows := by
  rw [cellsWith, CellSet.ofCells, Std.ExtTreeSet.mem_ofList, List.contains_iff_mem, List.mem_map]
  constructor
  · rintro ⟨⟨key', cell'⟩, listed, rfl⟩
    obtain ⟨member, same⟩ := List.mem_filter.mp listed
    obtain rfl : key' = key := of_decide_eq_true same
    exact member
  · intro member
    exact ⟨(key, cell), List.mem_filter.mpr ⟨member, decide_eq_true rfl⟩, rfl⟩

theorem cellsWith_rows (g : Groups) (key : Key) : cellsWith g.rows key = g.cells key := by
  apply Std.ExtTreeSet.ext_mem
  intro cell
  rw [mem_cellsWith, Groups.mem_rows_iff]

theorem cellsWith_rows_ofPairs (pairs : List (Key × CellId)) (key : Key) :
    cellsWith (Groups.ofPairs pairs).rows key = cellsWith pairs key := by
  apply Std.ExtTreeSet.ext_mem
  intro cell
  rw [cellsWith_rows, Groups.mem_cells_ofPairs, mem_cellsWith]

theorem resolutionOf_locateDegrees (lon lat : Float) (r : Nat) (id : CellId)
    (h : H3.locateDegrees lon lat r = .ok id) : H3.resolutionOf id = .ok r := by
  by_cases valid : r < 16
  · simp only [H3.locateDegrees, Resolution.validate_of_lt valid, bind_eq_ok_iff,
      Except.ok.injEq] at h
    obtain ⟨_, rfl, position, _, located⟩ := h
    have cell := H3.resolution_locate position ⟨r, valid⟩
    exact H3.resolutionOf_eq_ok_iff.mpr ⟨_, Except.ok.inj located, cell⟩
  · simp [H3.locateDegrees, Resolution.validate_of_ge (Nat.not_lt.mp valid), bind,
      Except.bind] at h

/-- The H3 grid with a way of its own to find the cell of a position. -/
def gridWith (locate : (lon lat : Float) → (r : Nat) → Except ConversionError CellId) : Grid :=
  { H3.grid with locate := locate }

namespace Converter

variable {c : Converter} {task : Task} {found : Groups}

theorem groups_eq_ok_iff : c.groups { task with compacted := false } = .ok found ↔
    ∃ nodata, nodataPixel task.array.type task.nodata = .ok nodata ∧
      (task.request nodata c.config.tolerance).scan c.grid c.pool c.config = .ok found := by
  simp only [groups, bind_eq_ok_iff, Bool.false_eq_true, if_false]
  refine exists_congr fun nodata => and_congr_right fun _ => ?_
  exact ⟨fun ⟨_, scanned, same⟩ => Except.ok.inj same ▸ scanned, fun scanned => ⟨_, scanned, rfl⟩⟩

theorem groups_eq_bind (c : Converter) (task : Task) :
    c.groups task = c.groups { task with compacted := false } >>= fun found =>
      if task.compacted then found.compact c.grid c.pool else .ok found := by
  cases compacted : task.compacted <;>
    simp only [groups, compacted, if_true, Bool.false_eq_true, if_false, bind_assoc, pure_bind]
  rfl

theorem groups_compacted (c : Converter) (task : Task) :
    c.groups { task with compacted := true } =
      c.groups { task with compacted := false } >>= fun found => found.compact c.grid c.pool :=
  groups_eq_bind c { task with compacted := true }

theorem rows_eq_ok_iff {rows : List (Key × CellId)} :
    c.rows task = .ok rows ↔ ∃ found, c.groups task = .ok found ∧ found.rows = rows :=
  map_eq_ok_iff

/-- Which workers scan has no part in what is found. -/
theorem groups_pool {grid : Grid} {config : Config} {pool : WorkerPool}
    (h : (mk grid config pool).groups { task with compacted := false } = .ok found)
    (pool' : WorkerPool) :
    (mk grid config pool').groups { task with compacted := false } = .ok found := by
  obtain ⟨nodata, given, scanned⟩ := groups_eq_ok_iff.mp h
  exact groups_eq_ok_iff.mpr
    ⟨nodata, given, Request.scan_eq_ok_iff.mpr (Request.scan_eq_ok_iff.mp scanned)⟩

theorem key_value_key_of_mem (h : c.groups { task with compacted := false } = .ok found)
    {key : Key} {cell : CellId} (member : cell ∈ found.cells key) : key.value.key = key := by
  obtain ⟨_, _, scanned⟩ := groups_eq_ok_iff.mp h
  obtain ⟨s, _, rfl, _⟩ := (Request.mem_cells_iff scanned).mp member
  exact s.pixel.key_value_key

section Condenses

variable {locate : (lon lat : Float) → (r : Nat) → Except ConversionError CellId}
  (located : ∀ lon lat r id, locate lon lat r = .ok id → H3.resolutionOf id = .ok r)
include located

theorem exists_condenses {config : Config} {pool : WorkerPool}
    (h : (mk (gridWith locate) config pool).groups { task with compacted := false } = .ok found)
    (key : Key) : ∃ t, H3.Condenses task.resolution (found.cells key) t := by
  obtain ⟨_, _, scanned⟩ := groups_eq_ok_iff.mp h
  have valid := (Request.scan_eq_ok_iff.mp scanned).1
  refine H3.exists_condenses (r := ⟨task.resolution, Nat.lt_succ_of_le valid⟩) fun id member => ?_
  obtain ⟨s, _, _, cell⟩ := (Request.mem_cells_iff scanned).mp member
  exact located _ _ _ _ cell

theorem exists_groups_compacted {config : Config} {pool : WorkerPool}
    (h : (mk (gridWith locate) config pool).groups { task with compacted := false } = .ok found) :
    ∃ compacted,
      (mk (gridWith locate) config pool).groups { task with compacted := true } = .ok compacted ∧
      ∀ key, (key ∈ compacted ↔ key ∈ found) ∧
        H3.Condenses task.resolution (found.cells key) (compacted.cells key) := by
  have condenses := exists_condenses located h
  obtain ⟨compacted, run⟩ : ∃ compacted, found.compact (gridWith locate) pool = .ok compacted :=
    Groups.exists_compact fun key _ => (condenses key).imp fun _ h => h.compacted
  obtain ⟨keys, each⟩ := Groups.compact_eq_ok run
  refine ⟨compacted, ?_, fun key => ⟨keys key, ?_⟩⟩
  · rw [groups_compacted, h]
    exact run
  · obtain ⟨t, condensed⟩ := condenses key
    have same : compacted.cells key = t := by
      -- a key that was not found has no cells on either side
      by_cases present : key ∈ found
      · exact Except.ok.inj ((each key present).symm.trans condensed.compacted)
      · rw [Groups.cells_of_not_mem (mt (keys key).mp present)]
        exact (condensed.eq_empty_iff.mpr (Groups.cells_of_not_mem present)).symm
    rwa [same]

/-- Compaction of rasters loses nothing. It succeeds when the conversion without it does, on
whatever workers either runs, and lists the same values, no two of which are reported
alike. The cells of each value are what its own cells without compaction condense to. -/
theorem rows_compacted (config : Config) (pool pool' : WorkerPool) (task : Task) :
    let leaves := (mk (gridWith locate) config pool).rows { task with compacted := false }
    let compacted := (mk (gridWith locate) config pool').rows { task with compacted := true }
    ((∃ rows, compacted = .ok rows) ↔ ∃ rows, leaves = .ok rows) ∧
      ∀ rows rows', leaves = .ok rows → compacted = .ok rows' → ∀ key,
        ((∃ cell, (key, cell) ∈ rows') ↔ ∃ cell, (key, cell) ∈ rows) ∧
        ((∃ cell, (key, cell) ∈ rows) → key.value.key = key) ∧
        H3.Condenses task.resolution (cellsWith rows key) (cellsWith rows' key) := by
  intro leaves compacted
  constructor
  · constructor
    · rintro ⟨rows, run⟩
      obtain ⟨_, condensed, _⟩ := rows_eq_ok_iff.mp run
      rw [groups_compacted] at condensed
      obtain ⟨found, scanned, _⟩ := bind_eq_ok_iff.mp condensed
      exact ⟨found.rows, rows_eq_ok_iff.mpr ⟨found, groups_pool scanned pool, rfl⟩⟩
    · rintro ⟨rows, run⟩
      obtain ⟨found, scanned, _⟩ := rows_eq_ok_iff.mp run
      obtain ⟨condensed, run', _⟩ := exists_groups_compacted located (groups_pool scanned pool')
      exact ⟨condensed.rows, rows_eq_ok_iff.mpr ⟨condensed, run', rfl⟩⟩
  · intro rows rows' run run' key
    obtain ⟨found, scanned, rfl⟩ := rows_eq_ok_iff.mp run
    obtain ⟨condensed, again, each⟩ := exists_groups_compacted located (groups_pool scanned pool')
    obtain ⟨condensed', same, rfl⟩ := rows_eq_ok_iff.mp run'
    obtain rfl : condensed = condensed' := Except.ok.inj (again.symm.trans same)
    simp only [Groups.mem_rows_iff, cellsWith_rows]
    refine ⟨(each key).2.nonempty_iff, ?_, (each key).2⟩
    rintro ⟨cell, member⟩
    exact key_value_key_of_mem scanned member

end Condenses

theorem regular_unit : (determinant (1 : Float) 0 0 1 == ((0 : Nat) : Float)) = false := by
  decide +kernel

/-- Finds the descendants of a pentagon in turn, from the longitude zero on. -/
def pentagonLocate (lon _lat : Float) (r : Nat) : Except ConversionError CellId :=
  let cells := H3.fifthPentagon.descendants r
  match cells[lon.toUInt64.toNat % cells.length]? with
  | some c => .ok c.id
  | none => .error (.invalidResolution "no cells")

theorem resolutionOf_pentagonLocate (lon lat : Float) (r : Nat) (id : CellId)
    (h : pentagonLocate lon lat r = .ok id) : H3.resolutionOf id = .ok r := by
  unfold pentagonLocate at h
  dsimp only at h
  split at h
  · next c found =>
    have descendant := H3.Cell.mem_descendants_iff.mp (List.mem_of_getElem? found)
    exact H3.resolutionOf_eq_ok_iff.mpr ⟨c, Except.ok.inj h, descendant.1.trans (Nat.zero_add r)⟩
  · contradiction

/-- One row with six pixels of one value and a seventh of another. -/
def sevenPixels : Task where
  array := ⟨.uint8, 1, 7, fun _ col => if col.val < 6 then 7 else 8⟩
  transform := ⟨1, 0, 0, 0, 1, 0, regular_unit⟩
  axis := .yx
  resolution := 1
  nodata := none
  compacted := false

def sevenPairs : List (Key × CellId) :=
  H3.fifthPentagon.children.map (fun c => (Pixel.key (7 : Pixel .uint8), c.id)) ++
    [(Pixel.key (8 : Pixel .uint8), H3.centralPentagon.id)]

theorem rows_sevenPixels : (mk (gridWith pentagonLocate) {} (.build 1 1)).rows
    { sevenPixels with compacted := false } = .ok (Groups.ofPairs sevenPairs).rows := by
  let q := sevenPixels.request none ⟨0⟩
  have cells : ∀ col < 7, ∀ row < 1,
      (q.cellAt (gridWith pentagonLocate) col row).toBool = true := by
    decide +kernel
  have pairs : ((q.kept (0, q.rows)).filterMap fun s =>
      (q.locate (gridWith pentagonLocate) s).toOption) = sevenPairs := by
    decide +kernel
  have scanned := Request.scan_eq_ok (q := q) (.build 1 1) {} (by decide) fun s keeps =>
    exists_ok_of_toBool (cells s.col keeps.bounds.1 s.row keeps.bounds.2)
  rw [pairs] at scanned
  exact rows_eq_ok_iff.mpr ⟨_, groups_eq_ok_iff.mpr ⟨none, rfl, scanned⟩, rfl⟩

/-- Six pixels merge into the pentagon. The seventh has the cell of the first one, which stays
as it is, for its value is another one. -/
theorem rows_compacted_seven_pixels :
    ((∀ lon lat r id, H3.locateDegrees lon lat r = .ok id → H3.resolutionOf id = .ok r) ∧
      ∀ lon lat r id, pentagonLocate lon lat r = .ok id → H3.resolutionOf id = .ok r) ∧
      ∃ rows rows',
        (mk (gridWith pentagonLocate) {} (.build 1 1)).rows
          { sevenPixels with compacted := false } = .ok rows ∧
        (mk (gridWith pentagonLocate) {} (.build 1 2)).rows
          { sevenPixels with compacted := true } = .ok rows' ∧
        (Pixel.key (7 : Pixel .uint8), H3.fifthPentagon.id) ∈ rows' ∧
        (∀ child ∈ H3.fifthPentagon.children,
          (Pixel.key (7 : Pixel .uint8), child.id) ∈ rows ∧
          (Pixel.key (7 : Pixel .uint8), child.id) ∉ rows') ∧
        (Pixel.key (8 : Pixel .uint8), H3.centralPentagon.id) ∈ rows' := by
  have spec := rows_compacted resolutionOf_pentagonLocate {} (.build 1 1) (.build 1 2) sevenPixels
  obtain ⟨rows', run'⟩ := spec.1.mpr ⟨_, rows_sevenPixels⟩
  have each := spec.2 _ rows' rows_sevenPixels run'
  have six : cellsWith sevenPairs (Pixel.key (7 : Pixel .uint8)) =
      H3.idSet H3.fifthPentagon.children :=
    congrArg CellSet.ofCells (by decide +kernel)
  have one : cellsWith sevenPairs (Pixel.key (8 : Pixel .uint8)) = H3.idSet [H3.centralPentagon] :=
    congrArg CellSet.ofCells (by decide +kernel)
  have whole := (each (Pixel.key (7 : Pixel .uint8))).2.2
  rw [cellsWith_rows_ofPairs, six] at whole
  have single := (each (Pixel.key (8 : Pixel .uint8))).2.2
  rw [cellsWith_rows_ofPairs, one] at single
  have merged (c : H3.Cell) := whole.mem_iff (r := 1) (by decide) (c := c)
  have alone (c : H3.Cell) := single.mem_iff (r := 1) (by decide) (c := c)
  refine ⟨⟨resolutionOf_locateDegrees, resolutionOf_pentagonLocate⟩, _, rows', rows_sevenPixels,
    run', ?_, fun child member => ⟨?_, ?_⟩, ?_⟩
  · exact mem_cellsWith.mp ((merged _).mpr (by decide))
  · rw [← mem_cellsWith, cellsWith_rows_ofPairs, six]
    exact H3.id_mem_idSet.mpr member
  · rw [← mem_cellsWith]
    exact mt (merged child).mp (by revert child; decide)
  · exact mem_cellsWith.mp ((alone _).mpr (by decide))

end Converter

end HexCover.Raster
