import HexCover.Raster.Array
import HexCover.Wkb.Kind

/-! Small shapes and rasters with a known content, for trying out conversions. Shapes
are written in well-known binary, little-endian. -/
namespace HexCover.Sample

open Raster

def below (x y : Double) : Bool :=
  match Binary.double.read x.bits.toNat, Binary.double.read y.bits.toNat with
  | .finite s m, .finite t n => Binary.signedUnits s m < Binary.signedUnits t n
  | .infinite s, .finite _ _ => s
  | .finite _ _, .infinite t => !t
  | .infinite s, .infinite t => s && !t
  | _, _ => false

instance : LT Double := ⟨fun x y => below x y = true⟩

instance : DecidableLT Double := fun x y => inferInstanceAs (Decidable (below x y = true))

def shapeBytes : Geometry Double → List UInt8 := Wkb.encode .little

def withoutHoles (ring : List (Coord Double)) : Polygon Double := ⟨closeRing Double.same ring, []⟩

def point (p : Coord Double) : List UInt8 := shapeBytes (.point p)

/-- A polygon with one ring, which is closed. -/
def polygon (ring : List (Coord Double)) : List UInt8 := shapeBytes (.polygon (withoutHoles ring))

/-- A rectangle between two opposite corners, counter-clockwise from its greatest
longitude and least latitude. -/
def rectangle (p q : Coord Double) : List UInt8 :=
  let r := Rect.spanning p q
  let start := ⟨r.high.x, r.low.y⟩
  polygon [start, r.high, ⟨r.low.x, r.high.y⟩, r.low, start]

def squareAround (center : Coord Float) (halfSize : Float) : List UInt8 :=
  rectangle ⟨.ofFloat (center.x - halfSize), .ofFloat (center.y - halfSize)⟩
    ⟨.ofFloat (center.x + halfSize), .ofFloat (center.y + halfSize)⟩

def multiPoint (ps : List (Coord Double)) : List UInt8 := shapeBytes (.multiPoint ps)

def multiPolygon (rings : List (List (Coord Double))) : List UInt8 :=
  shapeBytes (.multiPolygon (rings.map withoutHoles))

def striped (rows cols classes : Nat) : PixelArray .uint8 :=
  ⟨rows, cols, fun row col => Pixel.ofPattern .uint8 ((row + col) % max 1 classes)⟩

/-- A raster with one value and other pixels at `holes`. -/
def withHoles {t : ElementType} (rows cols : Nat) (value hole : Pixel t)
    (holes : List (Nat × Nat)) : PixelArray t :=
  ⟨rows, cols, fun row col => if holes.contains (row.val, col.val) then hole else value⟩

end HexCover.Sample
