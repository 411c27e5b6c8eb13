import HexCover.Binary.Text

/-! Why a conversion fails. Each constructor is one cause and carries what its
message names. Compaction, outlining and the building of a worker pool fail
inside the library; every other cause is the caller's input. -/
namespace HexCover

inductive ConversionError where
  | invalidTransform (message : String)
  | unsupportedAxisOrder (text : String)
  | unsupportedSearchMode (text : String)
  | unsupportedElementType (text : String)
  | invalidResolution (message : String)
  | invalidNodata (value elementType : String)
  | invalidBuffer (message : String)
  | emptyInput (message : String)
  | duplicateSurrogateId (id : UInt64)
  | lengthMismatch (ids geometries : Nat)
  | invalidGeometry (id : UInt64) (message : String)
  | invalidChunkSize (size : Nat)
  | invalidCoordinate (lon lat : Float) (message : String)
  | invalidCell (raw : UInt64)
  | compaction (message : String)
  | outline (message : String)
  | config (message : String)
  | threadPool (message : String)

/-- The lowercase hexadecimal digits of a number, without leading zeros. -/
def hexText (n : Nat) : String := String.ofList (Nat.toDigits 16 n)

namespace ConversionError

def message : ConversionError → String
  | invalidTransform text => "Invalid transform: " ++ text
  | unsupportedAxisOrder text =>
    "Unsupported axis order '" ++ text ++ "' (expected \"xy\" or \"yx\")"
  | unsupportedSearchMode text =>
    "Unsupported resolution search mode '" ++ text ++
      "' (expected \"min_diff\" or \"smaller_than_pixel\")"
  | unsupportedElementType text => "Unsupported array element type: " ++ text
  | invalidResolution text => "Invalid resolution: " ++ text
  | invalidNodata value elementType =>
    "Invalid nodata value " ++ value ++ " for element type " ++ elementType
  | invalidBuffer text => "Invalid raster buffer: " ++ text
  | emptyInput text => "Empty input: " ++ text
  | duplicateSurrogateId id => "Duplicate surrogate id " ++ toString id.toNat ++ " in batch"
  | lengthMismatch ids geometries =>
    "Input ids and geometries must be of the same length (got " ++ toString ids ++
      " ids, " ++ toString geometries ++ " geometries)"
  | invalidGeometry id text => "Invalid geometry for id " ++ toString id.toNat ++ ": " ++ text
  | invalidChunkSize size => "Invalid chunk size: " ++ toString size ++ " (must be positive)"
  | invalidCoordinate lon lat text =>
    "Invalid coordinate (" ++ floatText lon ++ ", " ++ floatText lat ++ "): " ++ text
  | invalidCell raw => "Invalid cell index 0x" ++ hexText raw.toNat
  | compaction text => "Compaction failed: " ++ text
  | outline text => "Failed to outline cells: " ++ text
  | config text => "Configuration error: " ++ text
  | threadPool text => "Failed to build worker pool: " ++ text

/-- Whether the caller's input is the cause. -/
def isInputError : ConversionError → Bool
  | compaction _ | outline _ | threadPool _ => false
  | _ => true

end ConversionError

end HexCover
