import HexCover.H3.BaseCells

/-! The cell of a position. The position is projected from the nearest face onto
the face's plane and falls into a hexagon of the face's lattice. Going up the
resolutions gives the digits in the face's orientation and the place of the base
cell; turning the digits into the base cell's orientation gives the path. In a
pentagon the digits are moved out of the missing direction, so the result is a
path for every face, place and list of digits. -/
namespace HexCover.H3

open Sphere

def spacingRatio : Float := 2.6457513110645907

/-- The distance of neighbouring base cells in the plane of a face. -/
def baseSpacing : Float := 0.381966011250105

/-- How far the lattices of odd resolutions are turned from the even ones. -/
def oddTurn : Float := 0.3334731722518321

def triangleHeight : Float := 0.8660254037844386

/-- `x` times the `n`th power of the spacing ratio. -/
def zoom (x : Float) : (n : Nat) → Float
  | 0 => x
  | n + 1 => zoom x n * spacingRatio

def faceVectors : Array Vector := faces.map fun f => f.center.vector

/-- The face with the nearest centre and the square of the distance to it. -/
def nearestFace (p : Position) : Face × Float :=
  let v := p.vector
  let distances := (List.finRange 20).map fun f =>
    (f, v.squareDistance (faceVectors.getD f.val ⟨0, 0, 0⟩))
  distances.foldl (fun best next => if next.2 < best.2 then next else best) (0, 5.0)

/-- The lattice point of a resolution whose hexagon holds a position, on the plane
of the nearest face. -/
def latticePoint (p : Position) (r : Nat) : Face × Point :=
  let (face, square) := nearestFace p
  let angle := (1.0 - square / 2.0).acos
  if angle < negligible then (face, .zero)
  else
    let turned := positiveAngle (face.data.azimuth - positiveAngle (face.data.center.azimuth p))
    let theta := if r % 2 = 1 then positiveAngle (turned - oddTurn) else turned
    let radius := zoom (angle.tan / baseSpacing) r
    let j := radius * theta.sin / triangleHeight
    let i := radius * theta.cos + j / 2.0
    (face, .nearestCube (-i) j (i - j))

def turnLeft (digits : List Digit) : List Digit := digits.map Digit.turnLeft

def turnRight (digits : List Digit) : List Digit := digits.map Digit.turnRight

/-- Turn to the left around a pentagon, passing over the missing direction. -/
def turnPentagon (digits : List Digit) : List Digit :=
  if leading (turnLeft digits) = 1 then turnLeft (turnLeft digits) else turnLeft digits

/-- Move digits out of the missing direction of a pentagon. -/
def closePentagon (toRight : Bool) (digits : List Digit) : List Digit :=
  if leading digits = 1 then (if toRight then turnRight digits else turnLeft digits) else digits

/-- Digits of a face's orientation in the orientation of a base cell. -/
def orient (base : BaseCell) (face : Face) (turns : Nat) (digits : List Digit) : List Digit :=
  if base ∈ pentagons then
    turns.repeat turnPentagon (closePentagon (base.home.rightFaces.contains face) digits)
  else turns.repeat turnLeft digits

theorem leading_turnLeft (digits : List Digit) :
    leading (turnLeft digits) = (leading digits).turnLeft := by
  induction digits with
  | nil => rfl
  | cons d ds ih =>
    by_cases h : d = 0
    · subst h
      simpa [leading, turnLeft, Digit.turnLeft] using ih
    · have moved : d.turnLeft ≠ 0 := by revert d; decide
      simp [leading, turnLeft, h, moved]

theorem leading_turnRight (digits : List Digit) :
    leading (turnRight digits) = (leading digits).turnRight := by
  induction digits with
  | nil => rfl
  | cons d ds ih =>
    by_cases h : d = 0
    · subst h
      simpa [leading, turnRight, Digit.turnRight] using ih
    · have moved : d.turnRight ≠ 0 := by revert d; decide
      simp [leading, turnRight, h, moved]

theorem leading_turnPentagon (digits : List Digit) : leading (turnPentagon digits) ≠ 1 := by
  unfold turnPentagon
  split
  · next h => rw [leading_turnLeft, h]; decide
  · assumption

theorem leading_closePentagon (toRight : Bool) (digits : List Digit) :
    leading (closePentagon toRight digits) ≠ 1 := by
  unfold closePentagon
  split
  · next h =>
    cases toRight
    · simp only [Bool.false_eq_true, if_false]; rw [leading_turnLeft, h]; decide
    · simp only [if_true]; rw [leading_turnRight, h]; decide
  · assumption

theorem length_turnPentagon (digits : List Digit) :
    (turnPentagon digits).length = digits.length := by
  unfold turnPentagon
  split <;> simp [turnLeft]

theorem length_closePentagon (toRight : Bool) (digits : List Digit) :
    (closePentagon toRight digits).length = digits.length := by
  unfold closePentagon
  split
  · cases toRight <;> simp [turnLeft, turnRight]
  · rfl

theorem length_orient (base : BaseCell) (face : Face) (turns : Nat) (digits : List Digit) :
    (orient base face turns digits).length = digits.length := by
  unfold orient
  split
  · induction turns with
    | zero => exact length_closePentagon _ _
    | succ n ih => rw [Nat.repeat, length_turnPentagon, ih]
  · induction turns with
    | zero => rfl
    | succ n ih => rw [Nat.repeat, turnLeft, List.length_map, ih]

theorem leading_orient {base : BaseCell} (pentagon : base ∈ pentagons) (face : Face)
    (turns : Nat) (digits : List Digit) : leading (orient base face turns digits) ≠ 1 := by
  rw [orient, if_pos pentagon]
  cases turns with
  | zero => exact leading_closePentagon _ _
  | succ n => exact leading_turnPentagon _

theorem Point.length_ascend (p : Point) (r : Nat) (digits : List Digit) :
    (p.ascend r digits).2.length = r + digits.length := by
  induction r generalizing p digits with
  | zero => simp [Point.ascend]
  | succ r ih => simp only [Point.ascend, ih, List.length_cons]; omega

def cellAt (face : Face) (p : Point) (r : Resolution) : Cell :=
  let base := (face.placement (p.ascend r.val []).1).1
  let turns := (face.placement (p.ascend r.val []).1).2
  ⟨base, orient base face turns (p.ascend r.val []).2, by
    refine ⟨?_, fun pentagon => leading_orient pentagon _ _ _⟩
    rw [length_orient, Point.length_ascend]
    simp only [List.length_nil, Nat.add_zero]
    omega⟩

def locate (p : Position) (r : Resolution) : Cell :=
  cellAt (latticePoint p r.val).1 (latticePoint p r.val).2 r

theorem resolution_cellAt (face : Face) (p : Point) (r : Resolution) :
    (cellAt face p r).resolution = r.val := by
  simp only [Cell.resolution, cellAt, length_orient, Point.length_ascend, List.length_nil,
    Nat.add_zero]

/-- The located cell has the requested resolution. -/
theorem resolution_locate (p : Position) (r : Resolution) : (locate p r).resolution = r.val :=
  resolution_cellAt _ _ r

end HexCover.H3
