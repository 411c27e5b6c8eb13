import HexCover.Proofs.Coefficients
import HexCover.Sphere.Area
import Mathlib.Algebra.Order.Ring.Abs
import Mathlib.Data.List.Rotate
import Mathlib.Tactic.Ring

/-! Areas of rings, in exact arithmetic and for any function in the place of the sine. What
the neighbours along a path add up to changes its sign when the path is run backward, and is
the sum of both parts when the path is cut at a coordinate. The area of a ring therefore does
not depend on its direction, on the coordinate it starts from, on repeated coordinates or on
the meridian that longitudes are counted from. -/
namespace HexCover.Sphere

/-- A ring ends where it starts. -/
def IsClosed {α : Type} (ring : List (Coord α)) : Prop := ring.head? = ring.getLast?

/-- The ring through vertices that returns to the first one. -/
def closeUp {α : Type} (vertices : List (Coord α)) : List (Coord α) := vertices ++ vertices.take 1

def eastward {α : Type} [Add α] (shift : α) (p : Coord α) : Coord α := ⟨p.x + shift, p.y⟩

namespace Gauge

section Paths

variable {α : Type} [Field α] {g : Gauge α} {p q : Coord α} {path first rest : List (Coord α)}

/-- What the pairs of neighbours along a path add up to. -/
def swept (g : Gauge α) (path : List (Coord α)) : α :=
  ((Planar.pairs path).map fun (p, q) => g.strip p q).sum

@[simp] theorem swept_nil : g.swept [] = 0 := rfl

@[simp] theorem swept_singleton : g.swept [p] = 0 := rfl

@[simp] theorem swept_cons_cons : g.swept (p :: q :: rest) = g.strip p q + g.swept (q :: rest) := by
  simp [swept, Planar.pairs]

@[simp] theorem strip_self : g.strip p p = 0 := by simp [strip]

theorem strip_comm (p q : Coord α) : g.strip q p = -g.strip p q := by
  simp only [strip]
  ring

theorem strip_eastward (shift : α) (p q : Coord α) :
    g.strip (eastward shift p) (eastward shift q) = g.strip p q := by
  simp only [strip, eastward, add_sub_add_right_eq_sub]

/-- A path is cut at one of its coordinates, which belongs to both parts. -/
theorem swept_append (first : List (Coord α)) (p : Coord α) (rest : List (Coord α)) :
    g.swept (first ++ p :: rest) = g.swept (first ++ [p]) + g.swept (p :: rest) := by
  induction first with
  | nil => simp
  | cons q first ih =>
    cases first with
    | nil => simp
    | cons r first =>
      simp only [List.cons_append, swept_cons_cons] at ih ⊢
      rw [ih, add_assoc]

theorem swept_repeated : g.swept (first ++ p :: p :: rest) = g.swept (first ++ p :: rest) := by
  rw [swept_append, swept_cons_cons, strip_self, zero_add, ← swept_append]

theorem swept_reverse (path : List (Coord α)) : g.swept path.reverse = -g.swept path := by
  induction path with
  | nil => simp
  | cons p path ih =>
    cases path with
    | nil => simp
    | cons q rest =>
      have cut := swept_append (g := g) rest.reverse q [p]
      rw [List.reverse_cons] at ih
      rw [List.reverse_cons, List.reverse_cons, List.append_assoc, List.singleton_append, cut, ih]
      simp [strip_comm q p]

theorem swept_eastward (shift : α) (path : List (Coord α)) :
    g.swept (path.map (eastward shift)) = g.swept path := by
  induction path with
  | nil => rfl
  | cons p path ih =>
    cases path with
    | nil => rfl
    | cons q rest =>
      simp only [List.map_cons, swept_cons_cons, strip_eastward] at ih ⊢
      rw [ih]

theorem swept_there_and_back (first : List (Coord α)) (p : Coord α) :
    g.swept (first ++ p :: first.reverse) = 0 := by
  have back := swept_reverse (g := g) (first ++ [p])
  rw [List.reverse_append, List.reverse_singleton, List.singleton_append] at back
  rw [swept_append, back, add_neg_cancel]

/-- A closed ring loses nothing when the coordinate that it starts from is moved to its end. -/
theorem swept_closeUp_concat (p : Coord α) (rest : List (Coord α)) :
    g.swept (closeUp (rest ++ [p])) = g.swept (closeUp (p :: rest)) := by
  cases rest with
  | nil => rfl
  | cons q rest =>
    have cut := swept_append (g := g) (q :: rest) p [q]
    simp only [closeUp, List.cons_append, List.append_assoc, List.take_succ_cons, List.take_zero,
      List.nil_append, swept_cons_cons, swept_singleton, add_zero] at cut ⊢
    rw [cut, add_comm]

theorem swept_closeUp_rotate (k : Nat) (vertices : List (Coord α)) :
    g.swept (closeUp (vertices.rotate k)) = g.swept (closeUp vertices) := by
  induction k generalizing vertices with
  | zero => rw [List.rotate_zero]
  | succ k ih =>
    cases vertices with
    | nil => rw [List.rotate_nil]
    | cons p rest => rw [List.rotate_cons_succ, ih, swept_closeUp_concat]

theorem swept_of_closed (closed : IsClosed path) :
    g.swept path = g.swept (closeUp path.dropLast) := by
  induction path using List.reverseRecOn with
  | nil => rfl
  | append_singleton first last =>
    cases first with
    | nil => rfl
    | cons p rest =>
      have same : p = last := Option.some.inj (closed.trans List.getLast?_concat)
      rw [List.dropLast_concat, closeUp, List.take_one, List.head?_cons, Option.toList_some, same]

/-- Closed rings through the same coordinates in the same cyclic order. -/
theorem swept_of_isRotated {ring : List (Coord α)} (closed : IsClosed path)
    (other : IsClosed ring) (turned : path.dropLast ~r ring.dropLast) :
    g.swept ring = g.swept path := by
  obtain ⟨k, same⟩ := turned
  rw [swept_of_closed other, ← same, swept_closeUp_rotate, ← swept_of_closed closed]

end Paths

section Areas

variable {α : Type} [Field α] [LinearOrder α] [Scalar α] [Exact α] {g : Gauge α}

theorem ringArea_eq (g : Gauge α) (ring : List (Coord α)) :
    g.ringArea ring = |g.swept ring| * (g.radius * g.radius) / 2 := by
  have total : ∀ start, (Planar.pairs ring).foldl (fun sum (p, q) => sum + g.strip p q) start =
      start + g.swept ring := by
    intro start
    rw [swept]
    induction Planar.pairs ring generalizing start with
    | nil => simp
    | cons pair pairs ih => rw [List.foldl_cons, ih, List.map_cons, List.sum_cons, add_assoc]
  rw [ringArea, total, Nat.cast_zero, zero_add, Exact.abs_eq, Nat.cast_ofNat]

variable [IsStrictOrderedRing α]

/-- The area of a rectangle is the one between two meridians and two parallels. -/
theorem rectArea_eq (g : Gauge α) (r : Rect α) :
    g.rectArea r = |(r.high.x - r.low.x) * g.perDegree| *
      |g.sine (r.high.y * g.perDegree) - g.sine (r.low.y * g.perDegree)| *
        (g.radius * g.radius) := by
  have around : g.swept [⟨r.low.x, r.low.y⟩, ⟨r.low.x, r.high.y⟩, ⟨r.high.x, r.high.y⟩,
      ⟨r.high.x, r.low.y⟩, ⟨r.low.x, r.low.y⟩] = (r.high.x - r.low.x) * g.perDegree *
        (g.sine (r.high.y * g.perDegree) - g.sine (r.low.y * g.perDegree)) * 2 := by
    simp only [swept_cons_cons, swept_singleton, strip]
    ring
  rw [rectArea, ringArea_eq, around, abs_mul, abs_mul, abs_two]
  ring

/-- The area of a ring is that of its reverse and of every ring that runs through the same
coordinates from another start. Repeating a coordinate and moving all of them to the east
change nothing, and a path that returns on itself has no area. A rectangle has the area between
its meridians and parallels on the sphere. So its area does not depend on its longitude, and
the parts into which a meridian cuts it have its area together. -/
theorem ringArea_laws (g : Gauge α) :
    (∀ ring, g.ringArea ring.reverse = g.ringArea ring) ∧
    (∀ ring other : List (Coord α), IsClosed ring → IsClosed other →
      ring.dropLast ~r other.dropLast → g.ringArea other = g.ringArea ring) ∧
    (∀ p first rest, g.ringArea (first ++ p :: p :: rest) = g.ringArea (first ++ p :: rest)) ∧
    (∀ shift ring, g.ringArea (ring.map (eastward shift)) = g.ringArea ring) ∧
    (∀ path, g.ringArea (path ++ path.reverse) = 0 ∧
      g.ringArea (path ++ path.reverse.tail) = 0) ∧
    (∀ r, g.rectArea r = |(r.high.x - r.low.x) * g.perDegree| *
      |g.sine (r.high.y * g.perDegree) - g.sine (r.low.y * g.perDegree)| *
        (g.radius * g.radius)) ∧
    (∀ shift p q, g.rectArea ⟨eastward shift p, eastward shift q⟩ = g.rectArea ⟨p, q⟩) ∧
    (∀ p q meridian, p.x ≤ meridian → meridian ≤ q.x →
      g.rectArea ⟨p, ⟨meridian, q.y⟩⟩ + g.rectArea ⟨⟨meridian, p.y⟩, q⟩ =
        g.rectArea ⟨p, q⟩) := by
  simp only [ringArea_eq]
  refine ⟨?_, ?_, ?_, ?_, ?_, g.rectArea_eq, ?_, ?_⟩
  · intro ring
    rw [swept_reverse, abs_neg]
  · intro ring other closed otherClosed turned
    rw [swept_of_isRotated closed otherClosed turned]
  · intro p first rest
    rw [swept_repeated]
  · intro shift ring
    rw [swept_eastward]
  · intro path
    induction path using List.reverseRecOn with
    | nil => simp
    | append_singleton first p =>
      simp only [List.reverse_append, List.reverse_singleton, List.singleton_append,
        List.append_assoc, List.tail_cons, swept_repeated, swept_there_and_back, abs_zero,
        zero_mul, zero_div, and_self]
  · intro shift p q
    simp only [rectArea_eq, eastward, add_sub_add_right_eq_sub]
  · intro p q meridian west east
    have parts : |(meridian - p.x) * g.perDegree| + |(q.x - meridian) * g.perDegree| =
        |(q.x - p.x) * g.perDegree| := by
      rw [abs_mul, abs_mul, abs_mul, abs_of_nonneg (sub_nonneg.mpr west),
        abs_of_nonneg (sub_nonneg.mpr east), abs_of_nonneg (sub_nonneg.mpr (west.trans east)),
        ← add_mul, sub_add_sub_cancel']
    rw [rectArea_eq, rectArea_eq, rectArea_eq, ← add_mul, ← add_mul, parts]

end Areas

/-- A gauge with a cube in the place of the sine. -/
def cubic : Gauge ℚ := ⟨2, fun y => y * y * y, 3⟩

def triangle : List (Coord ℚ) := [⟨0, 0⟩, ⟨4, 0⟩, ⟨3, 5⟩, ⟨0, 0⟩]

theorem ringArea_laws_triangle :
    IsClosed triangle ∧ IsClosed [⟨3, 5⟩, ⟨0, 0⟩, ⟨4, 0⟩, (⟨3, 5⟩ : Coord ℚ)] ∧
      cubic.ringArea [⟨3, 5⟩, ⟨0, 0⟩, ⟨4, 0⟩, ⟨3, 5⟩] = cubic.ringArea triangle ∧
      cubic.ringArea triangle = 36000 ∧
      cubic.rectArea ⟨⟨-1, 2⟩, ⟨5, 3⟩⟩ + cubic.rectArea ⟨⟨5, 2⟩, ⟨7, 3⟩⟩ =
        cubic.rectArea ⟨⟨-1, 2⟩, ⟨7, 3⟩⟩ := by
  obtain ⟨_, restart, _, _, _, _, _, cut⟩ := cubic.ringArea_laws
  refine ⟨rfl, rfl, restart _ _ rfl rfl ⟨2, rfl⟩, ?_, ?_⟩
  · decide +kernel
  · exact cut ⟨-1, 2⟩ ⟨7, 3⟩ 5 (by decide +kernel) (by decide +kernel)

end Gauge

end HexCover.Sphere
