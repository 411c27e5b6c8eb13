import HexCover.Grid
import HexCover.H3.Boundary
import HexCover.H3.Outline

/-! The H3 grid as a grid of conversions. -/
namespace HexCover.H3

/-- The mean areas of cells in square metres, coarsest resolution first. -/
def meanAreas : Array Float := #[
  4.35744941607839e12, 6.097884417941339e11, 8.680178039899731e10, 1.239343465508818e10,
  1.770347654491309e9, 2.529038581819452e8, 3.61290621644125e7, 5.161293359717198e6,
  7.373275975944188e5, 1.053325134272069e5, 1.504750190766437e4, 2.149643129451882e3,
  3.070918756316063e2, 4.387026794728301e1, 6.267181135324322, 8.953115907605802e-1]

def meanArea (resolution : Nat) : Except ConversionError Float := do
  let r ← Resolution.validate resolution
  return meanAreas.getD r.val 0.0

def infiniteAngle (name : String) (angle : Float) : String :=
  "invalid latitude/longitude (got " ++ floatText angle ++ "): infinite " ++ name

/-- The position of a longitude and a latitude; only infinite ones have none. -/
def positionOf (lon lat : Float) : Except ConversionError Sphere.Position :=
  let p : Sphere.Position := ⟨Sphere.radians lat, Sphere.radians lon⟩
  if !p.lat.isFinite then .error (.invalidCoordinate lon lat (infiniteAngle "latitude" p.lat))
  else if !p.lng.isFinite then
    .error (.invalidCoordinate lon lat (infiniteAngle "longitude" p.lng))
  else .ok p

def locateDegrees (lon lat : Float) (resolution : Nat) : Except ConversionError CellId := do
  let r ← Resolution.validate resolution
  return (locate (← positionOf lon lat) r).id

def boundaryOf (id : CellId) : Except ConversionError (Polygon Float) :=
  (Cell.ofId id).map fun c => ⟨c.boundary, []⟩

def grid : Grid where
  locate := locateDegrees
  resolution := resolutionOf
  boundary := boundaryOf
  compact := compact
  uncompact := uncompact
  meanArea := meanArea
  dissolve := dissolve

end HexCover.H3
