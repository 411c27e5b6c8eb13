import HexCover.Arithmetic
import HexCover.Planar
import HexCover.Sphere.Point

/-! Areas on a sphere. The area of a closed ring is approximated from the
longitude step and the sines of the latitudes of each pair of neighbours. The
formula is written for any number type and any function in the place of the
sine. -/
namespace HexCover.Sphere

variable {α : Type} [Add α] [Sub α] [Mul α] [Div α] [NatCast α] [Scalar α]

/-- What measuring on a sphere needs: radians of a degree, the sine, and the
radius in metres. -/
structure Gauge (α : Type) where
  perDegree : α
  sine : α → α
  radius : α

/-- What one pair of neighbours adds to the area of a ring. -/
def Gauge.strip (g : Gauge α) (p q : Coord α) : α :=
  (q.x - p.x) * g.perDegree *
    (((2 : Nat) : α) + g.sine (p.y * g.perDegree) + g.sine (q.y * g.perDegree))

/-- The area of a closed ring, whichever way round it runs. -/
def Gauge.ringArea (g : Gauge α) (ring : List (Coord α)) : α :=
  let total := (Planar.pairs ring).foldl (fun sum (p, q) => sum + g.strip p q) ((0 : Nat) : α)
  Scalar.abs total * (g.radius * g.radius) / ((2 : Nat) : α)

def Gauge.rectArea (g : Gauge α) (r : Rect α) : α :=
  g.ringArea [⟨r.low.x, r.low.y⟩, ⟨r.low.x, r.high.y⟩, ⟨r.high.x, r.high.y⟩,
    ⟨r.high.x, r.low.y⟩, ⟨r.low.x, r.low.y⟩]

/-- The earth as a sphere with its radius at the equator. -/
def earth : Gauge Float := ⟨pi / 180.0, Float.sin, 6378137.0⟩

end HexCover.Sphere
