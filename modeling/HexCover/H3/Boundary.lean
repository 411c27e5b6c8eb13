import HexCover.Geometry
import HexCover.H3.Locate

/-! Centres and boundaries of cells. A path leads from the base cell's home place
to a point of the home face's lattice. A point beyond the edge of its face belongs
to the neighbouring face and is moved to its lattice. Vertices lie on a three
times finer lattice, at even resolutions; at odd ones the next finer even lattice
is used. There an edge of a cell may cross an edge of a face, where it has a bend:
the crossing point is part of the boundary. -/
namespace HexCover.H3

open Sphere

structure FacePoint where
  face : Face
  point : Point

/-- The even resolution on whose lattice a resolution is worked. -/
def evenResolution (r : Nat) : Nat := r + r % 2

/-- The size of a face's lattice at an even resolution, in units of the
offsets between faces. -/
def faceUnit (r : Nat) : Int := 7 ^ (r / 2)

def Crossing.move (x : Crossing) (unit : Int) (p : Point) : FacePoint :=
  ⟨x.face, (x.turns.repeat Point.turnLeft p + x.offset.scale unit).normal⟩

/-- The edge beyond which a point with components over the limit lies. -/
def Point.edge (p : Point) : Edge :=
  if p.k > 0 then (if p.j > 0 then .jk else .ki) else .ij

/-- A turn around a pentagon's centre that closes the gap of its missing
direction. -/
def Point.closeGap (unit : Int) (p : Point) : Point :=
  let center : Point := ⟨2 * unit, 0, 0⟩
  (p - center).turnRight + center

/-- Move a point that lies beyond an edge of its face; `none` if it does not. With
`closing`, a point beyond the edge at a pentagon's gap is turned over it first. -/
def FacePoint.cross? (unit : Int) (closing : Bool) (p : FacePoint) : Option FacePoint :=
  if p.point.total ≤ 2 * unit then none
  else
    let edge := p.point.edge
    let point := if closing && edge = .ki then p.point.closeGap unit else p.point
    some ((p.face.crossing edge).move unit point)

/-- Cross edges until the point lies on its face. -/
def FacePoint.settle (unit : Int) (p : FacePoint) : (fuel : Nat) → FacePoint
  | 0 => p
  | fuel + 1 => match p.cross? unit false with
    | none => p
    | some q => q.settle unit fuel

/-- The lattice point of a cell's centre, on the face that holds it. -/
def Cell.center (c : Cell) : FacePoint :=
  let pentagon : Bool := c.base ∈ pentagons
  let digits := if pentagon && leading c.digits = 5 then turnRight c.digits else c.digits
  let home := c.base.home
  let start := home.place.descend 0 digits
  let odd := c.resolution % 2 = 1
  let unit := faceUnit (evenResolution c.resolution)
  let even : FacePoint := ⟨home.face, if odd then start.downRight else start⟩
  match even.cross? unit (pentagon && leading digits = 4) with
  | none => ⟨home.face, start⟩
  | some moved =>
    let settled := if pentagon then moved.settle unit 5 else moved
    if odd then ⟨settled.face, settled.point.upRight⟩ else settled

structure Plane where
  x : Float
  y : Float

def Point.plane (p : Point) : Plane :=
  let i := Float.ofInt (p.i - p.k)
  let j := Float.ofInt (p.j - p.k)
  ⟨i - 0.5 * j, j * triangleHeight⟩

/-- `x` divided by the `n`th power of the spacing ratio. -/
def shrink (x : Float) : (n : Nat) → Float
  | 0 => x
  | n + 1 => shrink x n * (1.0 / spacingRatio)

/-- The position of a vector in the plane of a face, given in units of the spacing
of resolution `r` divided by `fineness`; the lattice is turned by `turn`. -/
def Face.position (f : Face) (v : Plane) (r : Nat) (fineness turn : Float) : Position :=
  let length := (v.x * v.x + v.y * v.y).sqrt
  if length < negligible then f.data.center
  else
    let distance := (shrink length r / fineness * baseSpacing).atan
    let theta := positiveAngle (Float.atan2 v.y v.x + turn)
    f.data.center.destination (positiveAngle (f.data.azimuth - theta)) distance

def Cell.centerPosition (c : Cell) : Position :=
  let p := c.center
  p.face.position p.point.plane c.resolution 1.0 (if c.resolution % 2 = 1 then oddTurn else 0.0)

/-- The vertices around a centre at even resolutions, on the three times finer
lattice. -/
def evenVertices : List Point :=
  [⟨2, 1, 0⟩, ⟨1, 2, 0⟩, ⟨0, 2, 1⟩, ⟨0, 1, 2⟩, ⟨1, 0, 2⟩, ⟨2, 0, 1⟩]

/-- The vertices around a centre at odd resolutions, on the three times finer
lattice of the next resolution. -/
def oddVertices : List Point :=
  [⟨5, 4, 0⟩, ⟨1, 5, 0⟩, ⟨0, 5, 4⟩, ⟨0, 1, 5⟩, ⟨4, 0, 5⟩, ⟨5, 0, 1⟩]

/-- The vertices of a cell on the face of its centre, counter-clockwise. -/
def Cell.faceVertices (c : Cell) : List Point :=
  let fine := c.center.point.thirdLeft.thirdRight
  let odd := c.resolution % 2 = 1
  let center := if odd then fine.downRight else fine
  let around := if odd then oddVertices else evenVertices
  (around.take (if c.isPentagon then 5 else 6)).map fun v => (center + v).normal

/-- A vertex of a cell: where it lies on the face of the centre, where on the face
that holds it, and whether it lies on an edge of that one. -/
structure Vertex where
  home : Point
  settled : FacePoint
  onEdge : Bool

/-- The vertices of a cell, moved to the faces that hold them. -/
def Cell.vertices (c : Cell) : List Vertex :=
  let unit := 3 * faceUnit (evenResolution c.resolution)
  let face := c.center.face
  c.faceVertices.map fun v =>
    let p : FacePoint := ⟨face, v⟩
    let q := match p.cross? unit false with
      | none => p
      | some q => if c.isPentagon then q.settle unit 5 else q
    ⟨v, q, q.point.total = 2 * unit⟩

/-- The crossing of the lines through two pairs of points. -/
def Plane.meet (p q s t : Plane) : Plane :=
  let dx := q.x - p.x
  let dy := q.y - p.y
  let ex := t.x - s.x
  let ey := t.y - s.y
  let along := (ex * (p.y - s.y) - ey * (p.x - s.x)) / (-ex * dy + dx * ey)
  ⟨p.x + along * dx, p.y + along * dy⟩

def Plane.near (p q : Plane) : Bool :=
  (p.x - q.x).abs < 1.1920929e-7 && (p.y - q.y).abs < 1.1920929e-7

/-- The ends of an edge of a face on the three times finer lattice. -/
def Edge.ends (unit : Int) (e : Edge) : Plane × Plane :=
  let m := Float.ofInt (2 * unit)
  let first : Plane := ⟨3.0 * m, 0.0⟩
  let second : Plane := ⟨-1.5 * m, 3.0 * triangleHeight * m⟩
  let third : Plane := ⟨-1.5 * m, -3.0 * triangleHeight * m⟩
  match e with
  | .ij => (first, second)
  | .jk => (second, third)
  | .ki => (third, first)

/-- The point where the side of a cell of an odd resolution from one vertex to the
next crosses an edge of a face, in the plane of a face. Vertices on one face, and
a side that starts on the edge, have none. -/
def Cell.bend? (c : Cell) (v w : Vertex) : Option (Face × Plane) :=
  let unit := faceUnit (evenResolution c.resolution)
  let center := c.center.face
  let (f, g) := (v.settled.face, w.settled.face)
  if c.isPentagon then
    let moved := (g.crossing (g.edgeTo f)).move (3 * unit) w.settled.point
    let (s, t) := (moved.face.edgeTo g).ends unit
    some (moved.face, v.settled.point.plane.meet moved.point.plane s t)
  else if f ≠ g && !v.onEdge then
    let (s, t) := (center.edgeTo (if f = center then g else f)).ends unit
    let (p, q) := (v.home.plane, w.home.plane)
    let meeting := p.meet q s t
    if meeting.near p || meeting.near q then none else some (center, meeting)
  else none

/-- For each side of a cell, counter-clockwise, the positions from its first
vertex up to but not including the next vertex. -/
def Cell.sides (c : Cell) : List (List Position) :=
  let vertices := c.vertices
  let r := evenResolution c.resolution
  (vertices.zip (vertices.tail ++ vertices.take 1)).map fun (v, w) =>
    let start := v.settled.face.position v.settled.point.plane r 3.0 0.0
    let bend := if c.resolution % 2 = 1 then c.bend? v w else none
    start :: (bend.map fun (face, p) => face.position p r 3.0 0.0).toList

def mapCoord (p : Position) : Coord Float := ⟨degrees p.lng, degrees p.lat⟩

/-- The boundary of a cell in degrees, closed. -/
def Cell.boundary (c : Cell) : List (Coord Float) :=
  let ring := c.sides.flatten.map mapCoord
  ring ++ ring.take 1

end HexCover.H3
