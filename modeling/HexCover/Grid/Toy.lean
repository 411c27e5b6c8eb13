import HexCover.Arithmetic
import HexCover.Grid

/-! A square grid on the map plane, for trying out conversions. A cell of
resolution `r` is a square with sides of `2 ^ -r` degrees; its identifier holds
the resolution and the two coordinates of its corner in 28 bits each, so
coordinates wrap around. Each cell has four children. -/
namespace HexCover.Toy

/-- One more than the largest stored coordinate. -/
def span : Nat := 2 ^ 28

def pack (resolution : Nat) (x y : Int) : CellId :=
  ⟨UInt64.ofNat (resolution * 2 ^ 56 + (x % span).toNat * 2 ^ 28 + (y % span).toNat)⟩

structure Square where
  resolution : Nat
  x : Nat
  y : Nat

def unpack (id : CellId) : Except ConversionError Square :=
  let n := id.raw.toNat
  if 15 < n / 2 ^ 56 then .error (.invalidCell id.raw)
  else .ok ⟨n / 2 ^ 56, n / 2 ^ 28 % span, n % span⟩

def floorInt (x : Float) : Int := x.floor.toInt64.toInt

/-- The square at a position, for positions up to 1000 degrees from the origin. -/
def locate (lon lat : Float) (resolution : Nat) : Except ConversionError CellId := do
  let r ← Resolution.validate resolution
  if lon.abs <= 1000.0 && lat.abs <= 1000.0 then
    let scale := Float.ofNat (2 ^ r.val)
    return pack r.val (floorInt (lon * scale)) (floorInt (lat * scale))
  else throw (.invalidCoordinate lon lat "outside the toy grid")

/-- The four children of a square at resolution `r + 1`. -/
def quarter (r : Nat) (x y : Nat) : List CellId :=
  [pack (r + 1) (2 * x) (2 * y), pack (r + 1) (2 * x) (2 * y + 1),
    pack (r + 1) (2 * x + 1) (2 * y), pack (r + 1) (2 * x + 1) (2 * y + 1)]

def mergeQuarters : (r : Nat) → CellSet → CellSet
  | 0, s => s
  | r + 1, s =>
    let level := s.toList.filterMap fun id => match unpack id with
      | .ok q => if q.resolution = r + 1 then some q else none
      | .error _ => none
    let corners := level.filter fun q => q.x % 2 = 0 && q.y % 2 = 0
    let merged := corners.foldl (fun (t : CellSet) q =>
      let parts := quarter r (q.x / 2) (q.y / 2)
      if parts.all t.contains then
        (parts.foldl (fun (t : CellSet) part => t.erase part) t).insert (pack r (q.x / 2) (q.y / 2))
      else t) s
    mergeQuarters r merged

def compact (s : CellSet) : Except ConversionError CellSet := do
  let _ ← s.toList.mapM unpack
  return mergeQuarters 15 s

def parts (target : Nat) (id : CellId) : Except ConversionError (List CellId) := do
  let q ← unpack id
  if target < q.resolution then
    throw (.invalidResolution ("toy cell " ++ id.text ++ " is finer than " ++ toString target))
  let side := 2 ^ (target - q.resolution)
  return (List.range side).flatMap fun i => (List.range side).map fun j =>
    pack target (q.x * side + i : Nat) (q.y * side + j : Nat)

def uncompact (s : CellSet) (target : Nat) : Except ConversionError CellSet := do
  let r ← Resolution.validate target
  return CellSet.ofCells (← s.toList.mapM (parts r.val)).flatten

def meanArea (resolution : Nat) : Except ConversionError Float := do
  let r ← Resolution.validate resolution
  return Float.ofNat (2 ^ (2 * (20 - r.val)))

/-- The square grid, which draws no outlines. -/
def grid : Grid where
  locate := locate
  resolution id := (unpack id).map Square.resolution
  boundary _ := .error (.outline "toy grid")
  compact := compact
  uncompact := uncompact
  meanArea := meanArea
  dissolve _ := .error (.outline "toy grid")

end HexCover.Toy
