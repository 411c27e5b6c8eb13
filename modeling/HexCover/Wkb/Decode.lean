import HexCover.Error
import HexCover.Wkb.Normalize

/-! Geometries from well-known binary. The normal form is read back without any
check but that the bytes are there; rings are closed. An empty geometry is the
absence of one. -/
namespace HexCover.Wkb

/-- A reader of the normal form: a value and the bytes after it. -/
abbrev Reader (α : Type) := List UInt8 → Option (α × List UInt8)

def readBytes (n : Nat) : Reader (List UInt8) := fun bytes =>
  if bytes.length < n then none else some (bytes.take n, bytes.drop n)

def readWord : Reader Nat := fun bytes => do
  let (word, rest) ← readBytes 4 bytes
  return (Bytes.toNat word, rest)

def readCoord : Reader (Coord Double) := fun bytes => do
  let (x, bytes) ← readBytes 8 bytes
  let (y, bytes) ← readBytes 8 bytes
  return (⟨.read .little x, .read .little y⟩, bytes)

def readItems {α : Type} (item : Reader α) : (n : Nat) → Reader (List α)
  | 0 => fun bytes => some ([], bytes)
  | n + 1 => fun bytes => do
    let (a, bytes) ← item bytes
    let (as, bytes) ← readItems item n bytes
    return (a :: as, bytes)

def readCounted {α : Type} (item : Reader α) : Reader (List α) := fun bytes => do
  let (n, bytes) ← readWord bytes
  readItems item n bytes

def readPolygon : Reader (Polygon Double) := fun bytes => do
  let (rings, bytes) ← readCounted (readCounted readCoord) bytes
  return (← Polygon.ofRings? Double.same rings, bytes)

def readKind : Reader Kind := fun bytes => do
  let (marker, bytes) ← readBytes 1 bytes
  if marker ≠ [orderMarker .little] then none
  let (code, bytes) ← readWord bytes
  return (← Kind.ofCode? code, bytes)

/-- Read a member that has to be of one type. -/
def readMember {α : Type} (kind : Kind) (body : Reader α) : Reader α := fun bytes => do
  let (member, bytes) ← readKind bytes
  if member ≠ kind then none
  body bytes

/-- Read a value and make another one from it. -/
def readAs {α β : Type} (make : α → β) (item : Reader α) : Reader β := fun bytes => do
  let (a, bytes) ← item bytes
  return (make a, bytes)

/-- Read the body of a geometry; `inner` reads the geometries in it. -/
def readBody (inner : Reader (Geometry Double)) : Kind → Reader (Geometry Double)
  | .point => readAs .point readCoord
  | .lineString => readAs .lineString (readCounted readCoord)
  | .polygon => readAs .polygon readPolygon
  | .multiPoint => readAs .multiPoint (readCounted readCoord)
  | .multiLineString =>
    readAs .multiLineString (readCounted (readMember .lineString (readCounted readCoord)))
  | .multiPolygon => readAs .multiPolygon (readCounted (readMember .polygon readPolygon))
  | .collection => readAs .collection (readCounted inner)

/-- Read a geometry in normal form that may be nested `levels` deep, itself
counted. -/
def readGeometry : (levels : Nat) → Reader (Geometry Double)
  | 0 => fun _ => none
  | levels + 1 => fun bytes => do
    let (kind, bytes) ← readKind bytes
    readBody (readGeometry levels) kind bytes

def readNormal (bytes : List UInt8) : Option (Geometry Double) :=
  match readGeometry (maxDepth + 1) bytes with
  | some (g, []) => some g
  | _ => none

def malformed (id : UInt64) (fault : Fault) : ConversionError :=
  .invalidGeometry id ("malformed WKB: " ++ fault.message)

/-- The geometry of a record, or `none` if it is empty. -/
def decode (id : UInt64) (bytes : List UInt8) :
    Except ConversionError (Option (Geometry Double)) :=
  match normalize bytes with
  | .error fault => .error (malformed id fault)
  | .ok none => .ok none
  | .ok (some normal) => match readNormal normal with
    | some g => .ok (some g)
    | none => .error (malformed id .unreadable)

end HexCover.Wkb
