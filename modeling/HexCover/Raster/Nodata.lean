import HexCover.Double
import HexCover.Raster.Value

/-! Pixels without data. One value of a raster may be declared to stand for missing
data. Integers match it when they are equal. Binary numbers match it when they are
equal or when a positive tolerance is given and the distance, rounded to the
width of the pixels, does not exceed it; what is not a number matches what is not
a number and nothing else. -/
namespace HexCover.Raster

def atMost (distance tolerance : Nat) : Bool :=
  match Binary.double.read distance, Binary.double.read tolerance with
  | .finite s m, .finite t n => Binary.signedUnits s m ≤ Binary.signedUnits t n
  | .finite _ _, .infinite negative => !negative
  | .infinite negative, .finite _ _ => negative
  | .infinite s, .infinite t => s || !t
  | _, _ => false

def isPositive (x : Nat) : Bool :=
  match Binary.double.read x with
  | .finite negative units => !negative && units != 0
  | .infinite negative => !negative
  | .nan => false

/-- Whether two patterns of a binary format match within a tolerance. -/
def matchesBinary (f : Binary.Format) (x nodata : Nat) (tolerance : Double) : Bool :=
  if f.isNaN nodata then f.isNaN x
  else
    f.equal x nodata ||
      (isPositive tolerance.bits.toNat &&
        match f.distance x nodata with
        | some d => atMost (Binary.double.convert f d) tolerance.bits.toNat
        | none => false)

def Pixel.isNodata {t : ElementType} (p nodata : Pixel t) (tolerance : Double) : Bool :=
  match t.encoding with
  | .binary f => matchesBinary f p.toNat nodata.toNat tolerance
  | _ => p = nodata

/-- The pixel that a declared value stands for in rasters of a type. -/
def nodataPixel (t : ElementType) (declared : Option Value) :
    Except ConversionError (Option (Pixel t)) :=
  match declared with
  | none => .ok none
  | some v => match v.pixel? t with
    | some p => .ok (some p)
    | none => .error (.invalidNodata v.text t.name)

end HexCover.Raster
