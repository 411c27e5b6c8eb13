import HexCover.Raster.Choice
import HexCover.Raster.Scan

/-! Converting rasters of any element type. A converter holds a grid, valid settings
and a pool of workers. The value that stands for missing data may be given in any
type; it has to be representable in the type of the raster. -/
namespace HexCover.Raster

structure Converter where
  grid : Grid
  config : Config
  pool : WorkerPool

structure Task where
  array : AnyArray
  transform : Transform Float
  axis : AxisOrder
  resolution : Nat
  nodata : Option Value
  compacted : Bool

namespace Converter

/-- A converter on a machine with a number of cores. -/
def make (cores : Nat) (grid : Grid) (config : Config) : Except ConversionError Converter :=
  match config.fault? with
  | some fault => .error (.config fault)
  | none => .ok ⟨grid, config, .build cores config.threads⟩

def groups (c : Converter) (task : Task) : Except ConversionError Groups := do
  let request : Request task.array.type := {
    pixels := task.array.pixels
    transform := task.transform
    axis := task.axis
    resolution := task.resolution
    nodata := ← nodataPixel task.array.type task.nodata
    tolerance := c.config.tolerance }
  let found ← request.scan c.grid c.pool c.config
  if task.compacted then found.compact c.grid c.pool else return found

/-- The rows of a raster: every cell with its value, by value and then by cell. -/
def rows (c : Converter) (task : Task) : Except ConversionError (List (Key × CellId)) :=
  (c.groups task).map Groups.rows

end Converter

end HexCover.Raster
