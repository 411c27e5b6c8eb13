import HexCover.Proofs.Lists
import HexCover.Proofs.Outcome
import HexCover.Raster.Array
import HexCover.Raster.Config
import Mathlib.Data.List.Range

/-! Bands of rows. A band has at least one row, and the bands of a raster put together
are its rows, each once and in order. No product and no sum on the way leaves the range of
sizes, as a raster has at most half as many rows as there are sizes. -/
namespace HexCover.Raster

theorem Config.bandRowsFor_pos (config : Config) (rows workers : Nat) :
    0 < config.bandRowsFor rows workers := by
  unfold bandRowsFor maxAutoBandRows
  split <;> omega

def rowsIn (range : Nat × Nat) : List Nat := List.range' range.1 (range.2 - range.1)

theorem mem_rowsIn {range : Nat × Nat} {row : Nat} :
    row ∈ rowsIn range ↔ range.1 ≤ row ∧ row < range.2 := by
  rw [rowsIn, List.mem_range'_1]
  omega

theorem rowsIn_eq_take_drop {rows : Nat} {range : Nat × Nat} (bound : range.2 ≤ rows) :
    rowsIn range = ((List.range rows).drop range.1).take (range.2 - range.1) := by
  rw [List.range_eq_range', List.drop_range', List.take_range'_of_length_ge (by omega)]
  simp [rowsIn]

theorem rowsIn_band (rows bandRows index : Nat) :
    rowsIn (band rows bandRows index) =
      ((List.range rows).drop (index * bandRows)).take bandRows := by
  rw [rowsIn_eq_take_drop (Nat.min_le_right _ _)]
  apply List.take_eq_take_iff.mpr
  simp only [band, List.length_drop, List.length_range]
  omega

theorem flatMap_rowsIn_band (rows : Nat) {bandRows : Nat} (positive : 0 < bandRows) :
    ((List.range (Size.divCeil rows bandRows)).flatMap fun index =>
      rowsIn (band rows bandRows index)) = List.range rows := by
  have pieces := flatMap_pieces (List.range rows) positive
  simpa only [rowsIn_band, List.length_range] using pieces

/-- A row lies in the band whose index is its quotient by the rows of a band. -/
theorem mem_rowsIn_band_iff {rows bandRows index row : Nat} (positive : 0 < bandRows) :
    row ∈ rowsIn (band rows bandRows index) ↔ row < rows ∧ row / bandRows = index := by
  rw [mem_rowsIn, band, Nat.lt_min, Nat.div_eq_iff positive]
  omega

theorem band_nonempty {rows bandRows index : Nat} (positive : 0 < bandRows)
    (inside : index < Size.divCeil rows bandRows) :
    (band rows bandRows index).1 < (band rows bandRows index).2 := by
  have start := (Size.lt_divCeil_iff positive).mp inside
  simp only [band]
  omega

/-- A band that is followed by another one ends where that one starts. -/
theorem band_next {rows bandRows index : Nat} (positive : 0 < bandRows)
    (inside : index + 1 < Size.divCeil rows bandRows) :
    (band rows bandRows index).2 = (band rows bandRows (index + 1)).1 := by
  have start := (Size.lt_divCeil_iff positive).mp inside
  simp only [band, Nat.add_mul, Nat.one_mul] at start ⊢
  omega

theorem band_last {rows bandRows : Nat} (positive : 0 < bandRows) (row : 0 < rows) :
    (band rows bandRows (Size.divCeil rows bandRows - 1)).2 = rows := by
  obtain ⟨last, count⟩ := Nat.exists_eq_add_one.mpr (Size.divCeil_pos row positive)
  have cover := Size.le_divCeil_mul rows positive
  rw [count, Nat.add_mul, Nat.one_mul] at cover
  rw [count, Nat.add_sub_cancel]
  exact Nat.min_eq_right cover

section Sizes

variable {config : Config} {rows workers bandRows index : Nat}

theorem Config.bandRowsFor_lt (config : Config) (rows workers : Nat)
    (size : config.bandRows < Size.bound) : config.bandRowsFor rows workers < Size.bound := by
  have largest : maxAutoBandRows < Size.bound := by decide
  unfold bandRowsFor
  split <;> omega

theorem Config.bandRowsFor?_eq (config : Config) (rows : Nat)
    (quadruple : workers * bandsPerWorker < Size.bound) :
    config.bandRowsFor? rows workers = some (config.bandRowsFor rows workers) := by
  have product : Size.mul? (max 1 workers) bandsPerWorker =
      some (max 1 workers * bandsPerWorker) := by
    have one : 1 * bandsPerWorker < Size.bound := by decide
    have fits := Nat.max_lt.mpr ⟨one, quadruple⟩
    rw [Nat.mul_max_mul_right] at fits
    rw [Size.mul?, if_pos fits]
  unfold bandRowsFor? bandRowsFor
  split
  · rfl
  · rw [product]
    rfl

/-- The first band ends before a size as its rows are a size. A later band has no more rows
than there are before it, so that it ends before twice the rows of the raster. -/
theorem band_end_lt (size : bandRows < Size.bound) (dim : rows ≤ maxDim)
    (start : index * bandRows < rows) : index * bandRows + bandRows < Size.bound := by
  have half : maxDim + maxDim < Size.bound := by decide
  cases index with
  | zero => omega
  | succ index =>
    have fewer : bandRows ≤ (index + 1) * bandRows := Nat.le_mul_of_pos_left _ index.succ_pos
    omega

theorem band?_eq (size : bandRows < Size.bound) (dim : rows ≤ maxDim)
    (start : index * bandRows < rows) :
    band? rows bandRows index = some (band rows bandRows index) := by
  have last := band_end_lt size dim start
  simp [band?, Size.mul?, Size.add?, last, Nat.lt_of_le_of_lt (Nat.le_add_right _ _) last, band]

/-- The bands of a raster. There is at least one row in a band, and none of the numbers on the
way leaves the range of sizes, for any number of workers whose quadruple is a size. The bands
are not empty, the first one starts with the first row, each other one where the one before it
ends, and the last one ends with the last row. Put together they are the rows in order, so that
every row lies in exactly one band. -/
theorem Config.bands_tile (config : Config) (rows workers : Nat) (row : 0 < rows)
    (dim : rows ≤ maxDim) (size : config.bandRows < Size.bound)
    (quadruple : workers * bandsPerWorker < Size.bound) :
    ∃ bandRows count, config.bandRowsFor? rows workers = some bandRows ∧
      config.bandRowsFor rows workers = bandRows ∧ 1 ≤ bandRows ∧
      Size.divCeil rows bandRows = count ∧
      config.bands? rows workers = some ((List.range count).map (band rows bandRows)) ∧
      (∀ k < count, band rows bandRows k = (k * bandRows, min (k * bandRows + bandRows) rows) ∧
        k * bandRows < Size.bound ∧ k * bandRows + bandRows < Size.bound ∧
        (band rows bandRows k).1 < (band rows bandRows k).2) ∧
      (band rows bandRows 0).1 = 0 ∧
      (∀ k, k + 1 < count → (band rows bandRows k).2 = (band rows bandRows (k + 1)).1) ∧
      (band rows bandRows (count - 1)).2 = rows ∧
      ((List.range count).flatMap fun k => rowsIn (band rows bandRows k)) = List.range rows ∧
      ∀ i < rows, ∃! k, k < count ∧ i ∈ rowsIn (band rows bandRows k) := by
  have positive := config.bandRowsFor_pos rows workers
  have chosen := config.bandRowsFor?_eq rows quadruple
  have fits := config.bandRowsFor_lt rows workers size
  generalize config.bandRowsFor rows workers = bandRows at positive chosen fits
  have start {k : Nat} (inside : k < Size.divCeil rows bandRows) : k * bandRows < rows :=
    (Size.lt_divCeil_iff positive).mp inside
  refine ⟨bandRows, Size.divCeil rows bandRows, chosen, rfl, positive, rfl, ?_, fun k inside => ?_,
    Nat.zero_mul _, fun k => band_next positive, band_last positive row,
    flatMap_rowsIn_band rows positive, fun i inside => ?_⟩
  · rw [bands?, chosen]
    exact mapM_eq_some_map fun k member =>
      band?_eq fits dim (start (List.mem_range.mp member))
  · have last := band_end_lt fits dim (start inside)
    exact ⟨rfl, Nat.lt_of_le_of_lt (Nat.le_add_right _ _) last, last, band_nonempty positive inside⟩
  · have below : i / bandRows < Size.divCeil rows bandRows := by
      rw [Size.lt_divCeil_iff positive]
      exact Nat.lt_of_le_of_lt (Nat.div_mul_le_self i bandRows) inside
    refine ⟨i / bandRows, ⟨below, (mem_rowsIn_band_iff positive).mpr ⟨inside, rfl⟩⟩, ?_⟩
    rintro k ⟨_, member⟩
    exact ((mem_rowsIn_band_iff positive).mp member).2.symm

/-- Two bands of the tallest raster, the second of one row: the sum that ends it is short of the
largest size by three. -/
theorem Config.bands_tile_tallest :
    Config.bands? { bandRows := 2 ^ 63 - 2 } maxDim 0 =
        some [(0, 2 ^ 63 - 2), (2 ^ 63 - 2, 2 ^ 63 - 1)] ∧
      1 * (2 ^ 63 - 2) + (2 ^ 63 - 2) < Size.bound ∧
      ∃! k, k < 2 ∧ 2 ^ 63 - 2 ∈ rowsIn (band maxDim (2 ^ 63 - 2) k) := by
  obtain ⟨bandRows, count, _, rfl, _, rfl, listed, sizes, _, _, _, _, unique⟩ :=
    Config.bands_tile { bandRows := 2 ^ 63 - 2 } maxDim 0 (by decide) (by decide) (by decide)
      (by decide)
  exact ⟨listed, (sizes 1 (by decide)).2.2.1, unique (2 ^ 63 - 2) (by decide)⟩

/-- A raster that is taller than an array can be would not be safe. -/
example : band? (2 ^ 64 - 1) (2 ^ 64 - 2) 1 = none := by decide

end Sizes

end HexCover.Raster
