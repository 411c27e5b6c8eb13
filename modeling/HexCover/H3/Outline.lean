import HexCover.H3.Boundary
import HexCover.H3.Compaction
import HexCover.Planar
import Std.Data.ExtTreeMap

/-! Outlines of cell sets. A side of a cell lies on the outline when the cell
behind it is not in the set. At every corner three cells meet, so the side that
follows on the outline is found by turning around the corner from cell to cell
until a side on the outline is met. Rings that run counter-clockwise bound the
area from outside and the others are holes in the area that surrounds them. -/
namespace HexCover.H3

open Sphere

/-- A side of a cell: the cell behind it, and the positions from its first corner
up to but not including the next one. -/
structure Side where
  behind : CellId
  path : List Position

/-- The sides of a cell. Behind a side lies the cell that holds the centre's
mirror image in the middle of the side. -/
def Cell.outlineSides (c : Cell) : Array Side :=
  let center := c.centerPosition
  let paths := c.sides
  let corners := paths.filterMap List.head?
  let behind (p q : Position) : CellId :=
    if h : c.resolution < 16 then
      (locate (center.mirrored (p.middle q)) ⟨c.resolution, h⟩).id
    else c.id
  ((paths.zip (corners.zip (corners.tail ++ corners.take 1))).map fun (path, p, q) =>
    ⟨behind p q, path⟩).toArray

abbrev SideTable := Std.ExtTreeMap CellId (Array Side) compare

structure SideName where
  cell : CellId
  index : Nat

namespace SideTable

def sidesOf (t : SideTable) (id : CellId) : Array Side := (t[id]?).getD #[]

def isOuter (t : SideTable) (s : SideName) : Bool :=
  match (t.sidesOf s.cell)[s.index]? with
  | some side => !t.contains side.behind
  | none => false

/-- The first side on the outline around a corner, starting at side `index` of a
cell. Only a few cells meet at a corner. -/
def around (t : SideTable) (id : CellId) (index : Nat) : (fuel : Nat) → SideName
  | 0 => ⟨id, index⟩
  | fuel + 1 =>
    let sides := t.sidesOf id
    let here : SideName := ⟨id, index % sides.size⟩
    if t.isOuter here then here
    else match sides[here.index]? with
      | none => here
      | some side =>
        let shared := (t.sidesOf side.behind).findIdx fun back => back.behind = id
        t.around side.behind (shared + 1) fuel

def next (t : SideTable) (s : SideName) : SideName := t.around s.cell (s.index + 1) 8

/-- The sides of the ring that starts at `s`, up to the side `first`. -/
def ring (t : SideTable) (first s : SideName) : (fuel : Nat) → List SideName
  | 0 => [s]
  | fuel + 1 =>
    let n := t.next s
    if n.cell = first.cell ∧ n.index = first.index then [s] else s :: t.ring first n fuel

end SideTable

def SideName.key (s : SideName) : Nat := 8 * s.cell.raw.toNat + s.index

/-- Collect the rings through the given sides, each once. -/
def collectRings (t : SideTable) (outer : List SideName) : List (List SideName) :=
  let step := fun ((rings, seen) : List (List SideName) × Std.ExtTreeSet Nat compare) s =>
    if seen.contains s.key then (rings, seen)
    else
      let ring := t.ring s s outer.length
      (ring :: rings, seen.insertMany (ring.map SideName.key))
  (outer.foldl step ([], ∅)).1

/-- A ring of the outline in degrees, closed. -/
def SideTable.coords (t : SideTable) (ring : List SideName) : List (Coord Float) :=
  let path := ring.flatMap fun s => match (t.sidesOf s.cell)[s.index]? with
    | some side => side.path
    | none => []
  let coords := path.map mapCoord
  coords ++ coords.take 1

/-- Give each hole to the smallest outer ring around it. -/
def assemble (rings : List (List (Coord Float))) : List (Polygon Float) :=
  let (outer, holes) := rings.partition fun ring => Planar.signedArea ring > 0.0
  let bySize := outer.mergeSort fun a b => Planar.signedArea a <= Planar.signedArea b
  let owner := fun (hole : List (Coord Float)) =>
    bySize.findIdx fun ring => hole.head?.any fun p => Planar.inside p ring
  let owned := holes.map fun hole => (owner hole, hole)
  bySize.zipIdx.map fun (ring, n) =>
    ⟨ring, (owned.filter fun pair => pair.1 = n).map Prod.snd⟩

def outlineLayer (cells : List Cell) : Except LayerFault (List (Polygon Float)) := do
  checkLayer cells
  let table : SideTable := Std.ExtTreeMap.ofList (cells.map fun c => (c.id, c.outlineSides)) compare
  let names := cells.flatMap fun c =>
    (List.range (table.sidesOf c.id).size).map fun n => SideName.mk c.id n
  let rings := collectRings table (names.filter table.isOuter)
  return assemble (rings.map table.coords)

/-- The layer that a set covers: its cells, expanded to the finest of them where
they differ. -/
def outlineCells (cells : List Cell) : List Cell :=
  let finest := (cells.map Cell.resolution).foldl max 0
  if cells.any fun c => c.resolution != finest then distinct (expand cells finest) else cells

def dissolve (s : CellSet) : Except ConversionError (List (Polygon Float)) := do
  match outlineLayer (outlineCells (← cellsOf s)) with
  | .ok polygons => return polygons
  | .error fault => throw (.outline fault.message)

end HexCover.H3
