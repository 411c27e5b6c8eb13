import HexCover.Planar

/-! Shapes on a fixed grid of ten-millionths of a degree, in a form that does not
depend on where a ring was started or in what order shapes were found: a ring
leaves out its closing coordinate and starts at its smallest one, and lists of
rings and of polygons are sorted. -/
namespace HexCover.FixedPoint

/-- A coordinate rounded to ten-millionths of a degree. -/
def ofCoord (p : Coord Float) : Coord Int :=
  ⟨(p.x * 1.0e7).round.toInt64.toInt, (p.y * 1.0e7).round.toInt64.toInt⟩

/-- The order of coordinates: by longitude, then by latitude. -/
def compareCoords (p q : Coord Int) : Ordering := (compare p.x q.x).then (compare p.y q.y)

def compareLists {α : Type} (order : α → α → Ordering) : List α → List α → Ordering
  | [], [] => .eq
  | [], _ :: _ => .lt
  | _ :: _, [] => .gt
  | a :: as, b :: bs => (order a b).then (compareLists order as bs)

def sortBy {α : Type} (order : α → α → Ordering) (items : List α) : List α :=
  items.mergeSort fun a b => (order a b).isLE

def compareRings : List (Coord Int) → List (Coord Int) → Ordering := compareLists compareCoords

/-- The rotation of a ring that comes first in the order. -/
def startAtSmallest (ring : List (Coord Int)) : List (Coord Int) :=
  let rotations := (List.range ring.length).map fun n => ring.drop n ++ ring.take n
  ((sortBy compareRings rotations).head?).getD []

/-- A closed ring in its independent form. -/
def ofRing (ring : List (Coord Float)) : List (Coord Int) :=
  startAtSmallest (ring.dropLast.map ofCoord)

def ofPolygon (p : Polygon Float) : Polygon Int :=
  ⟨ofRing p.exterior, sortBy compareRings (p.interiors.map ofRing)⟩

def ofPolygons (ps : List (Polygon Float)) : List (Polygon Int) :=
  sortBy (fun p q => (compareRings p.exterior q.exterior).then
    (compareLists compareRings p.interiors q.interiors)) (ps.map ofPolygon)

end HexCover.FixedPoint
