import HexCover.Grid
import HexCover.Pool
import HexCover.Raster.Array
import HexCover.Raster.Config
import HexCover.Raster.Groups
import HexCover.Raster.Nodata
import HexCover.Transform

/-! Scanning a raster. Every pixel that does not stand for missing data is grouped
by its value with the cell at its centre. The rows are divided into bands that
workers scan on their own, and the groupings of the bands are merged. A pixel whose
centre has no cell makes the scan fail. -/
namespace HexCover.Raster

structure Request (t : ElementType) where
  pixels : PixelArray t
  transform : Transform Float
  axis : AxisOrder
  resolution : Nat
  nodata : Option (Pixel t)
  tolerance : Double

namespace Request

variable {t : ElementType}

def rowsFirst (q : Request t) : PixelArray t := q.pixels.rowsFirst q.axis

def skips (q : Request t) (p : Pixel t) : Bool :=
  q.nodata.any fun nodata => p.isNodata nodata q.tolerance

def cellAt (g : Grid) (q : Request t) (col row : Nat) : Except ConversionError CellId :=
  let center := q.transform.pixelCenter col row
  g.locate center.x center.y q.resolution

def addPixel (g : Grid) (q : Request t) (row : Fin q.rowsFirst.dim₀) (groups : Groups)
    (col : Fin q.rowsFirst.dim₁) : Except ConversionError Groups :=
  let p := q.rowsFirst.get row col
  if q.skips p then .ok groups
  else (q.cellAt g col row).map (groups.add p.key)

def addRow (g : Grid) (q : Request t) (groups : Groups) (row : Fin q.rowsFirst.dim₀) :
    Except ConversionError Groups :=
  (List.finRange q.rowsFirst.dim₁).foldlM (q.addPixel g row) groups

def scanBand (g : Grid) (q : Request t) (range : Nat × Nat) : Except ConversionError Groups :=
  (((List.finRange q.rowsFirst.dim₀).drop range.1).take (range.2 - range.1)).foldlM
    (q.addRow g) ∅

def scan (g : Grid) (pool : WorkerPool) (config : Config) (q : Request t) :
    Except ConversionError Groups := do
  let _ ← Resolution.validate q.resolution
  if q.pixels.isEmpty then return ∅
  let rows := q.rowsFirst.dim₀
  let bandRows := config.bandRowsFor rows pool.threads
  pool.combine ∅ Groups.merge (Size.divCeil rows bandRows) fun index =>
    q.scanBand g (band rows bandRows index)

end Request

/-- Compact the cells of every group on its own. -/
def Groups.compact (g : Grid) (pool : WorkerPool) (groups : Groups) :
    Except ConversionError Groups := do
  let compacted ← pool.collect (groups.toList.map fun (key, cells) =>
    (g.compact cells).map fun cells => (key, cells)).toArray
  return .ofList compacted

end HexCover.Raster
