import HexCover.H3.Boundary
import HexCover.H3.Compaction
import HexCover.Planar
import HexCover.Vector.Convert

/-! The cells that a geometry covers. A point covers its cell. A line covers the
cells on the straight lattice paths between its coordinates. A polygon covers the
cells whose centres lie inside its outer ring and in no hole on the map plane;
they are found by going down the hierarchy from the base cells, leaving out every
cell whose descendants are too far from the polygon. A collection covers what its
members cover. -/
namespace HexCover.H3

open Sphere

inductive PlacementFault where
  | point
  | line
  | shortRing
  | ringCoordinate
deriving DecidableEq, Repr

def PlacementFault.message : PlacementFault → String
  | .point => "x and y must be valid"
  | .line => "every coordinate of the line must be valid"
  | .shortRing => "invalid ring (not enough coordinate)"
  | .ringCoordinate => "invalid coordinate (e.g. infinite)"

/-- Whether a coordinate lies within a full turn of longitude and half a turn of
latitude from the origin. -/
def isPlaceable (p : Coord Float) : Bool :=
  (radians p.x).abs <= 2.0 * pi && (radians p.y).abs <= pi

def checkPoint (p : Coord Float) : Except PlacementFault Unit :=
  if isPlaceable p then .ok () else .error .point

def checkLine (line : List (Coord Float)) : Except PlacementFault Unit :=
  if line.all isPlaceable then .ok () else .error .line

/-- Accept a ring with at least four coordinates, all of them placeable. -/
def checkRing (ring : List (Coord Float)) : Except PlacementFault Unit :=
  if ring.length < 4 then .error .shortRing
  else if ring.all isPlaceable then .ok ()
  else .error .ringCoordinate

def checkPolygon (p : Polygon Float) : Except PlacementFault Unit := p.rings.forM checkRing

mutual

/-- Accept a geometry whose parts are acceptable; the first that is not decides. -/
def checkPlacement : Geometry Float → Except PlacementFault Unit
  | .point p => checkPoint p
  | .lineString line => checkLine line
  | .polygon p => checkPolygon p
  | .multiPoint ps => ps.forM checkPoint
  | .multiLineString lines => lines.forM checkLine
  | .multiPolygon ps => ps.forM checkPolygon
  | .collection members => checkPlacements members

def checkPlacements : List (Geometry Float) → Except PlacementFault Unit
  | [] => .ok ()
  | g :: gs => do
    checkPlacement g
    checkPlacements gs

end

def coordPosition (p : Coord Float) : Position := ⟨radians p.y, radians p.x⟩

def pointCell (r : Resolution) (p : Coord Float) : Cell := locate (coordPosition p) r

/-- The cells on the straight lattice path between two cells of one base cell. -/
def pathCells (c d : Cell) : List Cell :=
  let p := Point.zero.descend 0 c.digits
  let q := Point.zero.descend 0 d.digits
  let steps := p.distance q
  let (pa, pb, pc) := p.toCube
  let (qa, qb, qc) := q.toCube
  let step (s t : Int) : Float :=
    if steps = 0 then 0.0 else Float.ofInt (t - s) / Float.ofNat steps
  (List.range (steps + 1)).filterMap fun n =>
    let along (s t : Int) : Float := Float.ofInt s + step s t * Float.ofNat n
    let point := Point.nearestCube (along pa qa) (along pb qb) (along pc qc)
    Cell.ofPath? c.base (point.ascend c.resolution []).2

def lineCells (r : Resolution) (line : List (Coord Float)) : List Cell :=
  (Planar.pairs line).flatMap fun (p, q) => pathCells (pointCell r p) (pointCell r q)

structure Extent where
  south : Float
  north : Float
  west : Float
  east : Float

def Extent.of (ring : List (Coord Float)) : Extent :=
  ring.foldl (fun e p => ⟨if p.y < e.south then p.y else e.south,
    if p.y > e.north then p.y else e.north, if p.x < e.west then p.x else e.west,
    if p.x > e.east then p.x else e.east⟩) ⟨1000.0, -1000.0, 1000.0, -1000.0⟩

/-- No descendant's centre is further from a cell's centre than this, in radians.
The greatest distance is about 0.23 for base cells and shrinks with the spacing. -/
def reach (r : Nat) : Float := shrink 0.3 r

/-- Whether a cell around `center` may have a descendant whose centre lies in the
extent. Near the poles every longitude may. -/
def Extent.mayReach (e : Extent) (center : Coord Float) (r : Nat) : Bool :=
  let far := degrees (reach r)
  if center.y + far < e.south || center.y - far > e.north then false
  else if center.y.abs + far >= 90.0 then true
  else
    let width := degrees (clampUnit ((reach r).sin / (radians center.y).cos)).asin
    [-360.0, 0.0, 360.0].any fun turn =>
      e.west - width <= center.x + turn && center.x + turn <= e.east + width

/-- The descendants of a cell, `steps` resolutions finer, whose centres lie in a
polygon. -/
def Cell.inside (polygon : Polygon Float) (extent : Extent) : (steps : Nat) → Cell → List Cell
  | 0, c => if Planar.insidePolygon (mapCoord c.centerPosition) polygon then [c] else []
  | steps + 1, c =>
    if extent.mayReach (mapCoord c.centerPosition) c.resolution then
      c.children.flatMap (Cell.inside polygon extent steps)
    else []

def baseCells : List Cell := (List.finRange 122).filterMap fun b => Cell.ofPath? b []

/-- The cells whose centres lie in a polygon. -/
def polygonCells (r : Resolution) (p : Polygon Float) : List Cell :=
  let extent := Extent.of (Planar.unwrapRing p.exterior)
  baseCells.flatMap (Cell.inside p extent r.val)

mutual

/-- The cells of a geometry, perhaps with repetitions. -/
def coverCells (r : Resolution) : Geometry Float → List Cell
  | .point p => [pointCell r p]
  | .lineString line => lineCells r line
  | .polygon p => polygonCells r p
  | .multiPoint ps => ps.map (pointCell r)
  | .multiLineString lines => lines.flatMap (lineCells r)
  | .multiPolygon ps => ps.flatMap (polygonCells r)
  | .collection members => coverMembers r members

def coverMembers (r : Resolution) : List (Geometry Float) → List Cell
  | [] => []
  | g :: gs => coverCells r g ++ coverMembers r gs

end

def cover (r : Resolution) (g : Geometry Float) : Except PlacementFault (List Cell) := do
  checkPlacement g
  return coverCells r g

def coverIds (r : Resolution) (g : Geometry Float) : Except String (List CellId) :=
  match cover r g with
  | .ok cells => .ok (cells.map Cell.id)
  | .error fault => .error fault.message

def indexer : Vector.Indexer := .ofCover coverIds compact

end HexCover.H3
