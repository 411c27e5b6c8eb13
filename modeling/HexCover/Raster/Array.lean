import HexCover.Arithmetic
import HexCover.Axis
import HexCover.Raster.Value

/-! Two-dimensional arrays of pixels. An array is read from the bytes of its
elements in row-major, little-endian order; the count of bytes has to be that of
the shape, and both the count and the shape have to be sizes. -/
namespace HexCover.Raster

structure PixelArray (t : ElementType) where
  dim₀ : Nat
  dim₁ : Nat
  get : Fin dim₀ → Fin dim₁ → Pixel t

structure AnyArray where
  type : ElementType
  pixels : PixelArray type

namespace PixelArray

variable {t : ElementType}

def isEmpty (a : PixelArray t) : Bool := a.dim₀ = 0 || a.dim₁ = 0

def transpose (a : PixelArray t) : PixelArray t := ⟨a.dim₁, a.dim₀, fun i j => a.get j i⟩

def rowsFirst (axis : AxisOrder) (a : PixelArray t) : PixelArray t :=
  match axis with
  | .xy => a.transpose
  | .yx => a

/-- The pixels in row-major order. -/
def toList (a : PixelArray t) : List (Pixel t) :=
  (List.finRange a.dim₀).flatMap fun i => (List.finRange a.dim₁).map (a.get i)

def toBytes (a : PixelArray t) : List UInt8 := a.toList.flatMap Pixel.toBytes

/-- The array of a shape whose pixels are the consecutive pieces of `bytes`. -/
def ofPieces (t : ElementType) (dim₀ dim₁ : Nat) (bytes : Array UInt8) : PixelArray t where
  dim₀ := dim₀
  dim₁ := dim₁
  get i j :=
    let start := (i * dim₁ + j) * t.size
    Pixel.ofBytes t (bytes.extract start (start + t.size)).toList

end PixelArray

def shapeText (dim₀ dim₁ : Nat) : String :=
  "[" ++ toString dim₀ ++ ", " ++ toString dim₁ ++ "]"

/-- The number of bytes of an array, if it is a size. -/
def byteCount? (t : ElementType) (dim₀ dim₁ : Nat) : Option Nat :=
  (Size.mul? dim₀ dim₁).bind (Size.mul? · t.size)

def wrongByteCount (t : ElementType) (dim₀ dim₁ expected got : Nat) : String :=
  "expected " ++ toString expected ++ " bytes for a " ++ toString dim₀ ++ "x" ++
    toString dim₁ ++ " " ++ t.name ++ " array, got " ++ toString got

def maxDim : Nat := 2 ^ 63 - 1

/-- The array of a named type with a shape and the bytes of its elements. -/
def AnyArray.ofBytes (typeName : String) (dim₀ dim₁ : Nat) (bytes : List UInt8) :
    Except ConversionError AnyArray := do
  let t ← ElementType.parse typeName
  match byteCount? t dim₀ dim₁ with
  | none => throw (.invalidBuffer ("shape " ++ shapeText dim₀ dim₁ ++ " overflows"))
  | some expected =>
    if bytes.length ≠ expected then
      throw (.invalidBuffer (wrongByteCount t dim₀ dim₁ expected bytes.length))
    if maxDim < dim₀ ∨ maxDim < dim₁ then
      throw (.invalidBuffer "ShapeError/Overflow: arithmetic overflow")
    return ⟨t, .ofPieces t dim₀ dim₁ bytes.toArray⟩

end HexCover.Raster
