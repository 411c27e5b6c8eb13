import HexCover.Axis
import HexCover.Grid
import HexCover.Raster.Array
import HexCover.Sphere.Area
import HexCover.Transform

/-! Choosing a resolution for a raster. The pixel in the middle stands for all of
them, and its area is compared with the mean areas of cells: either the closest
area is taken, the coarser one of two that are equally close, or the first area
that is no larger, and the finest resolution if there is none. -/
namespace HexCover.Raster

inductive SearchMode where
  /-- The resolution with the closest area. -/
  | closest
  /-- The coarsest resolution with an area that is no larger. -/
  | noLarger
deriving DecidableEq, Repr

namespace SearchMode

def name : SearchMode → String
  | closest => "min_diff"
  | noLarger => "smaller_than_pixel"

/-- Read the name of a mode; its words are joined by underscores or by hyphens. -/
def parse (text : String) : Except ConversionError SearchMode :=
  if text = "min_diff" || text = "min-diff" then .ok closest
  else if text = "smaller_than_pixel" || text = "smaller-than-pixel" then .ok noLarger
  else .error (.unsupportedSearchMode text)

end SearchMode

section

variable {ε α : Type} [Sub α] [LT α] [DecidableLT α] [LE α] [DecidableLE α] [Scalar α]

/-- A resolution and how far its area is from the one looked for. -/
structure Candidate (α : Type) where
  resolution : Resolution
  difference : α

/-- The closer one of a candidate and another resolution. A difference that is not
finite is never the closer one. -/
def closer (best : Option (Candidate α)) (r : Resolution) (difference : α) :
    Option (Candidate α) :=
  match best with
  | none => if Scalar.isFinite difference then some ⟨r, difference⟩ else none
  | some c => if difference < c.difference then some ⟨r, difference⟩ else some c

def closestResolution (area : Resolution → Except ε α) (target : α) :
    Except ε Resolution := do
  let best ← Resolution.all.foldlM (fun best r => do
    return closer best r (Scalar.abs ((← area r) - target))) none
  return (best.map Candidate.resolution).getD 0

/-- The first of several resolutions with an area of at most `target`; the finest
resolution if there is none. -/
def firstNoLarger (area : Resolution → Except ε α) (target : α) :
    List Resolution → Except ε Resolution
  | [] => .ok 15
  | r :: rs => do
    if (← area r) ≤ target then return r
    firstNoLarger area target rs

def selectResolution (area : Resolution → Except ε α) (mode : SearchMode) (target : α) :
    Except ε Resolution :=
  match mode with
  | .closest => closestResolution area target
  | .noLarger => firstNoLarger area target Resolution.all

end

/-- The area of the pixel in the middle of a raster, in square metres. -/
def pixelArea (dim₀ dim₁ : Nat) (transform : Transform Float) (axis : AxisOrder) :
    Except ConversionError Float :=
  let (cols, rows) := axis.colsRows dim₀ dim₁
  if cols = 0 ∨ rows = 0 then
    .error (.emptyInput ("cannot derive a pixel size from shape " ++ shapeText dim₀ dim₁))
  else .ok (Sphere.earth.rectArea (transform.pixelBounds (cols / 2) (rows / 2)))

/-- The resolution of a grid that suits the pixels of a raster. -/
def nearestResolution (g : Grid) (dim₀ dim₁ : Nat) (transform : Transform Float)
    (axis : AxisOrder) (mode : SearchMode) : Except ConversionError Resolution := do
  let area ← pixelArea dim₀ dim₁ transform axis
  selectResolution (g.meanArea ·.val) mode area

end HexCover.Raster
