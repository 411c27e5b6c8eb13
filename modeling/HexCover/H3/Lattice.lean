import HexCover.H3.Cell

/-! The hexagonal lattice in three axes at 120 degrees. Equal steps along all
three axes cancel, so each point has one normal form whose least component is
zero. A resolution step multiplies the lattice by 7 and turns it, to the left
from an even to an odd resolution and to the right from an odd to an even one;
both are linear maps that send each axis to a fixed vector. -/
namespace HexCover.H3

structure Point where
  i : Int
  j : Int
  k : Int
deriving DecidableEq, Repr

namespace Point

instance : Add Point := ⟨fun p q => ⟨p.i + q.i, p.j + q.j, p.k + q.k⟩⟩

instance : Sub Point := ⟨fun p q => ⟨p.i - q.i, p.j - q.j, p.k - q.k⟩⟩

def zero : Point := ⟨0, 0, 0⟩

def scale (n : Int) (p : Point) : Point := ⟨n * p.i, n * p.j, n * p.k⟩

def total (p : Point) : Int := p.i + p.j + p.k

def normal (p : Point) : Point :=
  let least := min p.i (min p.j p.k)
  ⟨p.i - least, p.j - least, p.k - least⟩

/-- The linear map that sends the axes to three vectors. -/
def mapAxes (onI onJ onK : Point) (p : Point) : Point :=
  (scale p.i onI + scale p.j onJ + scale p.k onK).normal

def turnLeft : Point → Point := mapAxes ⟨1, 1, 0⟩ ⟨0, 1, 1⟩ ⟨1, 0, 1⟩

def turnRight : Point → Point := mapAxes ⟨1, 0, 1⟩ ⟨1, 1, 0⟩ ⟨0, 1, 1⟩

/-- The step to the child of an odd resolution that shares the centre. -/
def downLeft : Point → Point := mapAxes ⟨3, 0, 1⟩ ⟨1, 3, 0⟩ ⟨0, 1, 3⟩

/-- The step to the child of an even resolution that shares the centre. -/
def downRight : Point → Point := mapAxes ⟨3, 1, 0⟩ ⟨0, 3, 1⟩ ⟨1, 0, 3⟩

def down (r : Nat) : Point → Point := if r % 2 = 1 then downLeft else downRight

/-- The three times finer lattice, turned to the left. -/
def thirdLeft : Point → Point := mapAxes ⟨2, 0, 1⟩ ⟨1, 2, 0⟩ ⟨0, 1, 2⟩

def thirdRight : Point → Point := mapAxes ⟨2, 1, 0⟩ ⟨0, 2, 1⟩ ⟨1, 0, 2⟩

/-- A seventh, rounded to the nearest integer. -/
def seventh (n : Int) : Int := (2 * n + 7).fdiv 14

/-- The parent of a point of an odd resolution. -/
def upLeft (p : Point) : Point :=
  let i := p.i - p.k
  let j := p.j - p.k
  normal ⟨seventh (3 * i - j), seventh (i + 2 * j), 0⟩

/-- The parent of a point of an even resolution. -/
def upRight (p : Point) : Point :=
  let i := p.i - p.k
  let j := p.j - p.k
  normal ⟨seventh (2 * i + j), seventh (3 * j - i), 0⟩

def up (r : Nat) : Point → Point := if r % 2 = 1 then upLeft else upRight

def ofDigit (d : Digit) : Point := ⟨d.val / 4, d.val / 2 % 2, d.val % 2⟩

/-- The digit of a unit vector in normal form. -/
def toDigit (p : Point) : Digit := Fin.ofNat 7 (4 * p.i + 2 * p.j + p.k).toNat

/-- The point that a path of digits leads to from a point of resolution `r`. -/
def descend (p : Point) : (r : Nat) → List Digit → Point
  | _, [] => p
  | r, d :: ds => ((p.down (r + 1) + ofDigit d).normal).descend (r + 1) ds

/-- The path of `r` digits that leads to a point, and where it starts. -/
def ascend (p : Point) : (r : Nat) → (digits : List Digit) → Point × List Digit
  | 0, digits => (p, digits)
  | r + 1, digits =>
    let parent := p.up (r + 1)
    parent.ascend r ((p - parent.down (r + 1)).normal.toDigit :: digits)

/-- The cube coordinates, which add to zero. -/
def toCube (p : Point) : Int × Int × Int :=
  let a := p.k - p.i
  let b := p.j - p.k
  (a, b, -a - b)

def ofCube (a b : Int) : Point := normal ⟨-a, b, 0⟩

def distance (p q : Point) : Nat :=
  let d := (p - q).normal
  (max d.i (max d.j d.k)).toNat

end Point

/-- The nearest integer of a float, halves away from zero. -/
def nearestInt (x : Float) : Int := x.round.toInt64.toInt

/-- The lattice point nearest to real cube coordinates: round all three, then
recompute the one with the largest error from the others. -/
def Point.nearestCube (a b c : Float) : Point :=
  let (ra, rb, rc) := (a.round, b.round, c.round)
  let (da, db, dc) := ((ra - a).abs, (rb - b).abs, (rc - c).abs)
  if da > db && da > dc then .ofCube (-(nearestInt b) - nearestInt c) (nearestInt b)
  else if db > dc then .ofCube (nearestInt a) (-(nearestInt a) - nearestInt c)
  else .ofCube (nearestInt a) (nearestInt b)

namespace Digit

def turnLeft (d : Digit) : Digit :=
  match d with
  | 0 => 0 | 1 => 5 | 5 => 4 | 4 => 6 | 6 => 2 | 2 => 3 | 3 => 1

def turnRight (d : Digit) : Digit :=
  match d with
  | 0 => 0 | 5 => 1 | 4 => 5 | 6 => 4 | 2 => 6 | 3 => 2 | 1 => 3

end Digit

end HexCover.H3
