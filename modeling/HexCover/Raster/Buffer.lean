import HexCover.Raster.Array

/-! The reading of a buffer step by step. The bytes are cut into pieces of the size of an
element, without what is left over at the end, and each piece is read as a pixel. The pixels
are laid out in rows if their count is that of the shape. There is no result where a piece of
another size would be read. -/
namespace HexCover.Raster

section Pieces

variable {α : Type}

/-- The first `count` pieces of a list. -/
def pieces (size : Nat) : (count : Nat) → List α → List (List α)
  | 0, _ => []
  | count + 1, items => items.take size :: pieces size count (items.drop size)

/-- The pieces of a list, without a last one that is shorter. -/
def wholePieces (size : Nat) (items : List α) : List (List α) :=
  pieces size (items.length / size) items

end Pieces

def Pixel.read? (t : ElementType) (piece : List UInt8) : Option (Pixel t) :=
  if piece.length = t.size then some (ofBytes t piece) else none

/-- Why pixels cannot be laid out in a shape. The product of the dimensions that are not zero
has to be the dimension of an array, even if there are no pixels. -/
def shapeFault? (dim₀ dim₁ count : Nat) : Option String :=
  match ([dim₀, dim₁].filter (· ≠ 0)).foldlM Size.mul? 1 with
  | none => some "ShapeError/Overflow: arithmetic overflow"
  | some product =>
    if maxDim < product then some "ShapeError/Overflow: arithmetic overflow"
    else if count < dim₀ * dim₁ then some "ShapeError/OutOfBounds: out of bounds indexing"
    else if count ≠ dim₀ * dim₁ then some "ShapeError/IncompatibleShape: incompatible shapes"
    else none

namespace PixelArray

/-- The array of a shape whose pixels are listed row by row. -/
def ofList {t : ElementType} (dim₀ dim₁ : Nat) (pixels : List (Pixel t)) : PixelArray t :=
  ⟨dim₀, dim₁, fun i j => pixels.getD (i * dim₁ + j) 0⟩

/-- The array of a shape that is read from the pieces of a buffer. -/
def read? (t : ElementType) (dim₀ dim₁ : Nat) (bytes : List UInt8) :
    Option (Except ConversionError (PixelArray t)) := do
  let pixels ← (wholePieces t.size bytes).mapM (Pixel.read? t)
  match shapeFault? dim₀ dim₁ pixels.length with
  | some fault => return .error (.invalidBuffer fault)
  | none => return .ok (ofList dim₀ dim₁ pixels)

end PixelArray

/-- The array of a named type with a shape that is read from a buffer. -/
def AnyArray.read? (typeName : String) (dim₀ dim₁ : Nat) (bytes : List UInt8) :
    Option (Except ConversionError AnyArray) :=
  match ElementType.parse typeName with
  | .error e => some (.error e)
  | .ok t => match byteCount? t dim₀ dim₁ with
    | none => some (.error (.invalidBuffer ("shape " ++ shapeText dim₀ dim₁ ++ " overflows")))
    | some expected =>
      if bytes.length ≠ expected then
        some (.error (.invalidBuffer (wrongByteCount t dim₀ dim₁ expected bytes.length)))
      else (PixelArray.read? t dim₀ dim₁ bytes).map (·.map (AnyArray.mk t))

end HexCover.Raster
