import HexCover.Grid.Toy
import HexCover.Proofs.Pool
import HexCover.Proofs.Raster.Bands
import HexCover.Proofs.Raster.Groups
import HexCover.Raster.Scan
import Mathlib.Data.List.FinRange

/-! What a scan finds. The pixels of a raster are named by column and row, whichever
dimension of the array counts rows. A scan succeeds when every pixel that does not
stand for missing data has a cell. It then groups exactly these cells by the keys
of their pixels, for every division into bands and every order in which the bands
are merged. Otherwise it reports the first failure of some band. -/
namespace HexCover.Raster

variable {t : ElementType}

def PixelArray.get? (a : PixelArray t) (index : Nat × Nat) : Option (Pixel t) :=
  if h : index.1 < a.dim₀ ∧ index.2 < a.dim₁ then
    some (a.get ⟨index.1, h.1⟩ ⟨index.2, h.2⟩)
  else none

theorem PixelArray.lt_of_get?_eq_some {a : PixelArray t} {index : Nat × Nat} {p : Pixel t}
    (h : a.get? index = some p) : index.1 < a.dim₀ ∧ index.2 < a.dim₁ := by
  unfold PixelArray.get? at h
  split at h
  · assumption
  · contradiction

structure Site (t : ElementType) where
  col : Nat
  row : Nat
  pixel : Pixel t

namespace Request

def cols (q : Request t) : Nat := (q.axis.colsRows q.pixels.dim₀ q.pixels.dim₁).1

def rows (q : Request t) : Nat := (q.axis.colsRows q.pixels.dim₀ q.pixels.dim₁).2

def pixel? (q : Request t) (col row : Nat) : Option (Pixel t) :=
  q.pixels.get? (q.axis.index col row)

/-- A pixel of the raster that does not stand for missing data. -/
structure Keeps (q : Request t) (s : Site t) : Prop where
  found : q.pixel? s.col s.row = some s.pixel
  data : q.skips s.pixel = false

def site? (q : Request t) (row col : Nat) : Option (Site t) :=
  match q.pixel? col row with
  | none => none
  | some p => if q.skips p then none else some ⟨col, row, p⟩

/-- The pixels of a band that do not stand for missing data, row by row. -/
def kept (q : Request t) (range : Nat × Nat) : List (Site t) :=
  (rowsIn range).flatMap fun row => (List.range q.cols).filterMap (q.site? row)

def locate (g : Grid) (q : Request t) (s : Site t) : Except ConversionError (Key × CellId) :=
  (q.cellAt g s.col s.row).map fun cell => (s.pixel.key, cell)

theorem site?_eq_some_iff {q : Request t} {s : Site t} {row col : Nat} :
    q.site? row col = some s ↔ s.row = row ∧ s.col = col ∧ q.Keeps s := by
  obtain ⟨col', row', p'⟩ := s
  constructor
  · intro h
    cases found : q.pixel? col row with
    | none => simp [site?, found] at h
    | some p =>
      simp only [site?, found, Option.ite_none_left_eq_some, Option.some.injEq,
        Site.mk.injEq] at h
      obtain ⟨data, rfl, rfl, rfl⟩ := h
      exact ⟨rfl, rfl, found, by simpa using data⟩
  · rintro ⟨rfl, rfl, found, data⟩
    simp only at found data
    simp [site?, found, data]

theorem Keeps.bounds {q : Request t} {s : Site t} (h : q.Keeps s) :
    s.col < q.cols ∧ s.row < q.rows := by
  have inside := PixelArray.lt_of_get?_eq_some h.found
  unfold cols rows
  cases axis : q.axis <;> rw [axis] at inside
  · exact inside
  · exact inside.symm

theorem mem_kept_iff {q : Request t} {range : Nat × Nat} {s : Site t} :
    s ∈ q.kept range ↔ (range.1 ≤ s.row ∧ s.row < range.2) ∧ q.Keeps s := by
  simp only [kept, List.mem_flatMap, List.mem_filterMap, List.mem_range, mem_rowsIn,
    site?_eq_some_iff]
  constructor
  · rintro ⟨row, bounds, col, _, rfl, rfl, keeps⟩
    exact ⟨bounds, keeps⟩
  · rintro ⟨bounds, keeps⟩
    exact ⟨s.row, bounds, s.col, keeps.bounds.1, rfl, rfl, keeps⟩

theorem dims_rowsFirst (q : Request t) :
    q.rowsFirst.dim₀ = q.rows ∧ q.rowsFirst.dim₁ = q.cols := by
  unfold rowsFirst PixelArray.rowsFirst rows cols
  cases q.axis <;> exact ⟨rfl, rfl⟩

theorem pixel?_eq_get (q : Request t) (row : Fin q.rowsFirst.dim₀) (col : Fin q.rowsFirst.dim₁) :
    q.pixel? col row = some (q.rowsFirst.get row col) := by
  obtain ⟨pixels, transform, axis, resolution, nodata, tolerance⟩ := q
  cases axis with
  | xy => exact dif_pos ⟨col.isLt, row.isLt⟩
  | yx => exact dif_pos ⟨row.isLt, col.isLt⟩

def addSite (g : Grid) (q : Request t) (groups : Groups) (s : Site t) :
    Except ConversionError Groups :=
  (q.locate g s).map fun pair => groups.add pair.1 pair.2

theorem addPixel_of_site {g : Grid} {q : Request t} {row : Fin q.rowsFirst.dim₀}
    {groups : Groups} {col : Fin q.rowsFirst.dim₁} {s : Site t} (h : q.site? row col = some s) :
    q.addPixel g row groups col = q.addSite g groups s := by
  obtain ⟨atRow, atCol, found, data⟩ := site?_eq_some_iff.mp h
  have same : q.rowsFirst.get row col = s.pixel := by
    simpa [atRow, atCol, pixel?_eq_get] using found
  simp only [addPixel, same, data, addSite, locate, atRow, atCol, Bool.false_eq_true, if_false]
  cases q.cellAt g col row <;> rfl

theorem addPixel_of_none {g : Grid} {q : Request t} {row : Fin q.rowsFirst.dim₀}
    {groups : Groups} {col : Fin q.rowsFirst.dim₁} (h : q.site? row col = none) :
    q.addPixel g row groups col = .ok groups := by
  have skipped : q.skips (q.rowsFirst.get row col) = true := by
    simpa [site?, pixel?_eq_get] using h
  simp [addPixel, skipped]

theorem addRow_eq (g : Grid) (q : Request t) (groups : Groups) (row : Fin q.rowsFirst.dim₀) :
    q.addRow g groups row =
      ((List.range q.cols).filterMap (q.site? row)).foldlM (q.addSite g) groups := by
  rw [List.foldlM_filterMap, ← (dims_rowsFirst q).2, ← List.map_coe_finRange_eq_range,
    List.foldlM_map, addRow]
  congr 1
  funext groups col
  cases site : q.site? row col with
  | none => exact addPixel_of_none site
  | some s => exact addPixel_of_site site

/-- The scan of a band is the traversal of its pixels, grouped. -/
theorem scanBand_eq (g : Grid) (q : Request t) (range : Nat × Nat) (bound : range.2 ≤ q.rows) :
    q.scanBand g range = ((q.kept range).mapM (q.locate g)).map Groups.ofPairs := by
  have rows : rowsIn range = (((List.finRange q.rowsFirst.dim₀).drop range.1).take
      (range.2 - range.1)).map Fin.val := by
    rw [List.map_take, List.map_drop, List.map_coe_finRange_eq_range, (dims_rowsFirst q).1,
      rowsIn_eq_take_drop bound]
  have add : addSite g q = fun groups s =>
      (q.locate g s).map fun pair => Groups.add groups pair.1 pair.2 := rfl
  have scanned : q.scanBand g range = (q.kept range).foldlM (q.addSite g) ∅ := by
    rw [kept, rows, List.flatMap_map, ← foldlM_flatMap, scanBand]
    congr 1
    funext groups row
    exact addRow_eq g q groups row
  rw [scanned, add, foldlM_map_eq]
  rfl

def bandCount (q : Request t) (pool : WorkerPool) (config : Config) : Nat :=
  Size.divCeil q.rows (config.bandRowsFor q.rows pool.threads)

def scanRange (q : Request t) (pool : WorkerPool) (config : Config) (index : Nat) : Nat × Nat :=
  band q.rows (config.bandRowsFor q.rows pool.threads) index

theorem flatMap_kept_scanRange (q : Request t) (pool : WorkerPool) (config : Config) :
    ((List.range (q.bandCount pool config)).flatMap fun index =>
      q.kept (q.scanRange pool config index)) = q.kept (0, q.rows) := by
  have rows := flatMap_rowsIn_band q.rows (config.bandRowsFor_pos q.rows pool.threads)
  have all : rowsIn (0, q.rows) = List.range q.rows := by
    rw [rowsIn, List.range_eq_range', Nat.sub_zero]
  simp only [kept, ← List.flatMap_assoc, bandCount, scanRange, rows, all]

theorem scan_eq (g : Grid) (pool : WorkerPool) (config : Config) {q : Request t}
    (valid : q.resolution ≤ 15) (filled : q.pixels.isEmpty = false) :
    q.scan g pool config = pool.combine ∅ Groups.merge (q.bandCount pool config) fun index =>
      ((q.kept (q.scanRange pool config index)).mapM (q.locate g)).map Groups.ofPairs := by
  have bands (index : Nat) := q.scanBand_eq g (q.scanRange pool config index)
    (Nat.min_le_right _ _)
  simp only [← bands, scan, Resolution.validate_of_lt (Nat.lt_succ_of_le valid), filled,
    (dims_rowsFirst q).1, bind, Except.bind, Bool.false_eq_true, if_false]
  rfl

theorem isEmpty_of_keeps {q : Request t} {s : Site t} (h : q.Keeps s) :
    q.pixels.isEmpty = false := by
  have bounds := h.bounds
  unfold cols rows at bounds
  cases axis : q.axis <;> simp only [axis, AxisOrder.colsRows] at bounds <;>
    simp [PixelArray.isEmpty] <;> omega

theorem mem_kept_all_iff {q : Request t} {s : Site t} : s ∈ q.kept (0, q.rows) ↔ q.Keeps s := by
  rw [mem_kept_iff]
  exact ⟨fun h => h.2, fun h => ⟨⟨Nat.zero_le _, h.bounds.2⟩, h⟩⟩

/-- The sequential reference: the cells of all pixels in one pass over the rows. -/
theorem scan_eq_ok {g : Grid} {q : Request t} (pool : WorkerPool) (config : Config)
    (valid : q.resolution ≤ 15)
    (located : ∀ s, q.Keeps s → ∃ cell, q.cellAt g s.col s.row = .ok cell) :
    q.scan g pool config = .ok (Groups.ofPairs
      ((q.kept (0, q.rows)).filterMap fun s => (q.locate g s).toOption)) := by
  have good (range : Nat × Nat) : ∀ s ∈ q.kept range, ∃ pair, q.locate g s = .ok pair := by
    intro s member
    obtain ⟨cell, found⟩ := located s (mem_kept_iff.mp member).2
    exact ⟨_, map_eq_ok_iff.mpr ⟨cell, found, rfl⟩⟩
  cases filled : q.pixels.isEmpty with
  | true =>
    have none : q.kept (0, q.rows) = [] := by
      apply List.eq_nil_iff_forall_not_mem.mpr
      intro s member
      simp [isEmpty_of_keeps (mem_kept_all_iff.mp member)] at filled
    simp only [scan, Resolution.validate_of_lt (Nat.lt_succ_of_le valid), filled, none]
    rfl
  | false =>
    have merging : Concatenates Groups.ofPairs ∅ Groups.merge := ⟨rfl, Groups.merge_ofPairs⟩
    rw [scan_eq g pool config valid filled, ← flatMap_kept_scanRange q pool config,
      List.filterMap_flatMap]
    apply pool.combine_eq_ok merging
    intro index _
    rw [mapM_eq_ok_filterMap (good _)]
    rfl

theorem scan_eq_error {g : Grid} {q : Request t} (pool : WorkerPool) (config : Config)
    (valid : q.resolution ≤ 15) {s : Site t} (kept : q.Keeps s) {e : ConversionError}
    (failed : q.cellAt g s.col s.row = .error e) :
    ∃ index < q.bandCount pool config, ∃ e', q.scan g pool config = .error e' ∧
      FirstFailure (fun s => q.cellAt g s.col s.row)
        (q.kept (q.scanRange pool config index)) e' := by
  have run := scan_eq g pool config valid (isEmpty_of_keeps kept)
  cases outcome : q.scan g pool config with
  | ok groups =>
    -- the band of the failing pixel cannot have succeeded
    have inside := mem_kept_all_iff.mpr kept
    rw [← flatMap_kept_scanRange q pool config] at inside
    obtain ⟨index, bound, member⟩ := List.mem_flatMap.mp inside
    obtain ⟨part, scanned⟩ :=
      WorkerPool.parts_ok_of_combine_eq_ok (run.symm.trans outcome) index (List.mem_range.mp bound)
    obtain ⟨pairs, traversed, _⟩ := map_eq_ok_iff.mp scanned
    obtain good | ⟨e', first⟩ := forall_ok_or_firstFailure (q.locate g)
      (q.kept (q.scanRange pool config index))
    · obtain ⟨pair, found⟩ := good s member
      simp [locate, failed, Except.map] at found
    · simp [first.mapM_eq] at traversed
  | error e' =>
    obtain ⟨index, bound, scanned⟩ := WorkerPool.combine_eq_error (run.symm.trans outcome)
    have first := mapM_eq_error_iff.mp (map_eq_error_iff.mp scanned)
    exact ⟨index, bound, e', rfl, firstFailure_map_iff.mp first⟩

section

variable {g : Grid} {q : Request t} {pool : WorkerPool} {config : Config} {groups : Groups}

/-- Neither the workers nor the bands have a part in what a scan finds. -/
theorem scan_eq_ok_iff : q.scan g pool config = .ok groups ↔
    q.resolution ≤ 15 ∧ (∀ s, q.Keeps s → ∃ cell, q.cellAt g s.col s.row = .ok cell) ∧
      groups = Groups.ofPairs
        ((q.kept (0, q.rows)).filterMap fun s => (q.locate g s).toOption) := by
  constructor
  · intro scanned
    have valid : q.resolution ≤ 15 := by
      by_contra outside
      simp [scan, Resolution.validate_of_ge (show 16 ≤ q.resolution by omega), bind,
        Except.bind] at scanned
    have located : ∀ s, q.Keeps s → ∃ cell, q.cellAt g s.col s.row = .ok cell := by
      intro s keeps
      cases found : q.cellAt g s.col s.row with
      | ok cell => exact ⟨cell, rfl⟩
      | error e =>
        obtain ⟨_, _, e', failed, _⟩ := scan_eq_error pool config valid keeps found
        simp [scanned] at failed
    have found := scan_eq_ok pool config valid located
    exact ⟨valid, located, Except.ok.inj (scanned.symm.trans found)⟩
  · rintro ⟨valid, located, rfl⟩
    exact scan_eq_ok pool config valid located

/-- A scan finds the cells of the pixels with a key. -/
theorem mem_cells_iff (scanned : q.scan g pool config = .ok groups) {key : Key} {cell : CellId} :
    cell ∈ groups.cells key ↔
      ∃ s, q.Keeps s ∧ s.pixel.key = key ∧ q.cellAt g s.col s.row = .ok cell := by
  obtain ⟨_, _, rfl⟩ := scan_eq_ok_iff.mp scanned
  simp only [Groups.mem_cells_ofPairs, List.mem_filterMap, mem_kept_all_iff]
  refine exists_congr fun s => and_congr_right fun _ => ?_
  cases found : q.cellAt g s.col s.row <;> simp [locate, found, Except.map, Except.toOption]

end

end Request

end HexCover.Raster
