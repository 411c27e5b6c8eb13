import HexCover.CellSet
import HexCover.Geometry

/-! What a conversion asks of a grid: the cell at a position, the resolution and
the boundary of a cell, compaction and expansion of sets, the mean area of cells
and the outline of a set. Positions are longitudes and latitudes in degrees. -/
namespace HexCover

structure Grid where
  /-- The cell of a resolution at a longitude and a latitude. -/
  locate : (lon lat : Float) → (resolution : Nat) → Except ConversionError CellId
  /-- The resolution of a cell. -/
  resolution : CellId → Except ConversionError Nat
  /-- The boundary of a cell. -/
  boundary : CellId → Except ConversionError (Polygon Float)
  /-- Replace complete groups of siblings by their parent, again and again. -/
  compact : CellSet → Except ConversionError CellSet
  /-- Replace every cell by its descendants at a resolution. -/
  uncompact : CellSet → (resolution : Nat) → Except ConversionError CellSet
  /-- The mean area of the cells of a resolution in square metres. -/
  meanArea : (resolution : Nat) → Except ConversionError Float
  /-- The outline of a set, without the edges that its cells share. -/
  dissolve : CellSet → Except ConversionError (List (Polygon Float))

/-- Attach the boundary of its cell to each row. -/
def Grid.withBoundaries {ν : Type} (g : Grid) (rows : List (ν × CellId)) :
    Except ConversionError (List (ν × CellId × Polygon Float)) :=
  rows.mapM fun (value, cell) => return (value, cell, ← g.boundary cell)

def Grid.atResolution (g : Grid) (s : CellSet) (r : Nat) : CellSet :=
  s.filter fun cell => match g.resolution cell with
    | .ok n => n = r
    | .error _ => false

end HexCover
