import HexCover.Arithmetic
import HexCover.Error
import HexCover.Geometry
import HexCover.Text.Lowercase

/-! Affine transforms from pixels to the map. Six coefficients take a column and a
row to `x = a * col + b * row + c` and `y = d * col + e * row + f`. They are written
in one of two orders. A transform has finite coefficients and does not collapse a
pixel to area zero. -/
namespace HexCover

inductive CoefficientOrder where
  /-- As `a, b, c, d, e, f`. -/
  | affine
  /-- As `c, a, b, f, d, e`, the origin first. -/
  | gdal
deriving DecidableEq, Repr

inductive TransformFault (α : Type) where
  | notFinite (name : String) (value : α)
  | flat (a b d e : α)
  | wrongCount (n : Nat)
  | unknownOrder (text : String)

def TransformFault.message : TransformFault Float → String
  | notFinite name value => "coefficient '" ++ name ++ "' is not finite (" ++ floatText value ++ ")"
  | flat a b d e => "pixel area is zero (a=" ++ floatText a ++ ", b=" ++ floatText b ++
      ", d=" ++ floatText d ++ ", e=" ++ floatText e ++ ")"
  | wrongCount n => "expected 6 coefficients, got " ++ toString n
  | unknownOrder text => "unknown coefficient convention '" ++ text ++ "'"

def TransformFault.toError (fault : TransformFault Float) : ConversionError :=
  .invalidTransform fault.message

namespace CoefficientOrder

def name : CoefficientOrder → String
  | affine => "affine"
  | gdal => "gdal"

/-- Read the name of an order in any case. -/
def parse (text : String) : Except (TransformFault Float) CoefficientOrder :=
  let small := lowercase text
  if small = "affine" || small = "rasterio" then .ok affine
  else if small = "gdal" then .ok gdal
  else .error (.unknownOrder small)

end CoefficientOrder

variable {α : Type} [Add α] [Sub α] [Mul α] [Div α] [Neg α] [NatCast α] [BEq α] [Scalar α]

/-- The determinant of the linear part, which is the signed area of a pixel. -/
def determinant (a b d e : α) : α := a * e - b * d

structure Transform (α : Type) [Sub α] [Mul α] [NatCast α] [BEq α] where
  a : α
  b : α
  c : α
  d : α
  e : α
  f : α
  regular : (determinant a b d e == ((0 : Nat) : α)) = false

namespace Transform

/-- The transform with coefficients in affine order. -/
def build (a b c d e f : α) : Except (TransformFault α) (Transform α) :=
  let named := [("a", a), ("b", b), ("c", c), ("d", d), ("e", e), ("f", f)]
  match named.find? fun (_, value) => !Scalar.isFinite value with
  | some (name, value) => .error (.notFinite name value)
  | none =>
    if h : (determinant a b d e == ((0 : Nat) : α)) = false then .ok ⟨a, b, c, d, e, f, h⟩
    else .error (.flat a b d e)

def ofCoefficients (order : CoefficientOrder) (coefficients : List α) :
    Except (TransformFault α) (Transform α) :=
  match order, coefficients with
  | .affine, [a, b, c, d, e, f] => build a b c d e f
  | .gdal, [c, a, b, f, d, e] => build a b c d e f
  | _, _ => .error (.wrongCount coefficients.length)

def coefficients (t : Transform α) : CoefficientOrder → List α
  | .affine => [t.a, t.b, t.c, t.d, t.e, t.f]
  | .gdal => [t.c, t.a, t.b, t.f, t.d, t.e]

def det (t : Transform α) : α := determinant t.a t.b t.d t.e

/-- The map coordinate of a point in pixel space. -/
def apply (t : Transform α) (p : Coord α) : Coord α :=
  ⟨p.x * t.a + p.y * t.b + t.c, p.x * t.d + p.y * t.e + t.f⟩

def half : α := ((1 : Nat) : α) / ((2 : Nat) : α)

def pixelCenter (t : Transform α) (col row : Nat) : Coord α :=
  t.apply ⟨(col : α) + half, (row : α) + half⟩

/-- The map coordinates of two opposite corners of a pixel. -/
def pixelCorners (t : Transform α) (col row : Nat) : Coord α × Coord α :=
  (t.apply ⟨(col : α), (row : α)⟩,
    t.apply ⟨(col : α) + ((1 : Nat) : α), (row : α) + ((1 : Nat) : α)⟩)

/-- The rectangle between two opposite corners of a pixel. -/
def pixelBounds [LT α] [DecidableLT α] (t : Transform α) (col row : Nat) : Rect α :=
  Rect.spanning (t.pixelCorners col row).1 (t.pixelCorners col row).2

/-- The rectangle between the images of two opposite corners of a rectangle. -/
def applyRect [LT α] [DecidableLT α] (t : Transform α) (r : Rect α) : Rect α :=
  Rect.spanning (t.apply r.low) (t.apply r.high)

def invert (t : Transform α) : Except (TransformFault α) (Transform α) :=
  let idet := ((1 : Nat) : α) / t.det
  let ra := t.e * idet
  let rb := -t.b * idet
  let rd := -t.d * idet
  let re := t.a * idet
  build ra rb (-t.c * ra - t.f * rb) rd re (-t.c * rd - t.f * re)

end Transform

end HexCover
