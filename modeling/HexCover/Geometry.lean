/-! Shapes in the plane. Coordinates are of any number type: machine floats where
positions are computed, bit patterns where they are carried through unchanged. A
ring of a polygon is a list of coordinates whose first and last are equal, or an
empty list. -/
namespace HexCover

/-- A coordinate pair, longitude or column first. -/
structure Coord (α : Type) where
  x : α
  y : α
deriving DecidableEq, Repr

structure Rect (α : Type) where
  low : Coord α
  high : Coord α
deriving DecidableEq, Repr

/-- The smaller of two numbers first. -/
def ordered {α : Type} [LT α] [DecidableLT α] (a b : α) : α × α := if a < b then (a, b) else (b, a)

/-- The rectangle between two opposite corners. -/
def Rect.spanning {α : Type} [LT α] [DecidableLT α] (p q : Coord α) : Rect α :=
  let (x₀, x₁) := ordered p.x q.x
  let (y₀, y₁) := ordered p.y q.y
  ⟨⟨x₀, y₀⟩, ⟨x₁, y₁⟩⟩

/-- The line through coordinates, closed by its first one unless the last equals
it already. -/
def closeRing {α : Type} (same : α → α → Bool) (ring : List (Coord α)) : List (Coord α) :=
  match ring.head?, ring.getLast? with
  | some first, some last =>
    if same first.x last.x && same first.y last.y then ring else ring ++ [first]
  | _, _ => ring

structure Polygon (α : Type) where
  exterior : List (Coord α)
  interiors : List (List (Coord α))
deriving DecidableEq, Repr

def Coord.map {α β : Type} (f : α → β) (p : Coord α) : Coord β := ⟨f p.x, f p.y⟩

/-- All rings, the outer one first. -/
def Polygon.rings {α : Type} (p : Polygon α) : List (List (Coord α)) := p.exterior :: p.interiors

inductive Geometry (α : Type) where
  | point (p : Coord α)
  | lineString (line : List (Coord α))
  | polygon (polygon : Polygon α)
  | multiPoint (points : List (Coord α))
  | multiLineString (lines : List (List (Coord α)))
  | multiPolygon (polygons : List (Polygon α))
  | collection (members : List (Geometry α))
deriving Repr

def Polygon.map {α β : Type} (f : α → β) (p : Polygon α) : Polygon β :=
  ⟨p.exterior.map (·.map f), p.interiors.map (·.map (·.map f))⟩

mutual

def Geometry.map {α β : Type} (f : α → β) : Geometry α → Geometry β
  | .point p => .point (p.map f)
  | .lineString line => .lineString (line.map (·.map f))
  | .polygon p => .polygon (p.map f)
  | .multiPoint ps => .multiPoint (ps.map (·.map f))
  | .multiLineString lines => .multiLineString (lines.map (·.map (·.map f)))
  | .multiPolygon ps => .multiPolygon (ps.map (·.map f))
  | .collection members => .collection (Geometry.mapMembers f members)

def Geometry.mapMembers {α β : Type} (f : α → β) : List (Geometry α) → List (Geometry β)
  | [] => []
  | g :: gs => g.map f :: Geometry.mapMembers f gs

end

/-- The rings of a polygon read from a list, the first being the outer one. -/
def Polygon.ofRings? {α : Type} (same : α → α → Bool) :
    List (List (Coord α)) → Option (Polygon α)
  | [] => none
  | ring :: rings => some ⟨closeRing same ring, rings.map (closeRing same)⟩

end HexCover
