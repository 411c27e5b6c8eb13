import HexCover.Geometry

/-! Rings on the map plane, longitude across and latitude up, in degrees. A ring
that spans more than half a turn between two of its coordinates crosses the
antimeridian; its negative longitudes are then taken a full turn further east, and
so are those of what is compared with it. -/
namespace HexCover.Planar

def pairs {α : Type} (items : List α) : List (α × α) := items.zip items.tail

def crossesAntimeridian (ring : List (Coord Float)) : Bool :=
  (pairs ring).any fun (p, q) => (p.x - q.x).abs > 180.0

def unwrap (crossing : Bool) (p : Coord Float) : Coord Float :=
  if crossing && p.x < 0.0 then ⟨p.x + 360.0, p.y⟩ else p

/-- A closed ring without a jump at the antimeridian. -/
def unwrapRing (ring : List (Coord Float)) : List (Coord Float) :=
  ring.map (unwrap (crossesAntimeridian ring))

/-- Twice the area of a closed ring, positive if it runs counter-clockwise. -/
def signedArea (ring : List (Coord Float)) : Float :=
  (pairs (unwrapRing ring)).foldl (fun sum (p, q) => sum + (p.x * q.y - q.x * p.y)) 0.0

/-- Whether a point lies inside a closed ring without a jump: a ray to the east
crosses it an odd number of times. -/
def insideRing (p : Coord Float) (ring : List (Coord Float)) : Bool :=
  (pairs ring).foldl (fun inside (a, b) =>
    if (a.y > p.y) != (b.y > p.y) && p.x < (b.x - a.x) * (p.y - a.y) / (b.y - a.y) + a.x
    then !inside else inside) false

def inside (p : Coord Float) (ring : List (Coord Float)) : Bool :=
  insideRing (unwrap (crossesAntimeridian ring) p) (unwrapRing ring)

def insidePolygon (p : Coord Float) (polygon : Polygon Float) : Bool :=
  inside p polygon.exterior && !polygon.interiors.any (inside p)

end HexCover.Planar
