import HexCover.Arithmetic
import HexCover.Transform
import Mathlib.Algebra.Order.Group.Abs
import Mathlib.Algebra.Order.Ring.Rat
import Mathlib.Tactic.Ring

/-! Exact arithmetic, and transforms in it. What is computed with any number type is studied
for those on which arithmetic makes no error, such as the rational numbers. Six coefficients
are a transform exactly if their determinant is not zero, and a transform has the coefficients
that it was read from, in either order. It is determined by its images, whose differences
depend on the differences of the points only. -/
namespace HexCover

/-- All numbers are finite, and magnitudes are those of the order. -/
class Exact (α : Type) [Lattice α] [AddGroup α] [Scalar α] : Prop where
  isFinite_eq (x : α) : Scalar.isFinite x = true
  abs_eq (x : α) : Scalar.abs x = |x|

instance : Scalar ℚ := ⟨fun _ => true, fun x => |x|⟩

instance : Exact ℚ := ⟨fun _ => rfl, fun _ => rfl⟩

namespace Transform

section Images

variable {α : Type} [CommRing α] [BEq α] {s t : Transform α}

theorem apply_sub_apply (t : Transform α) (p q : Coord α) :
    (t.apply p).x - (t.apply q).x = t.a * (p.x - q.x) + t.b * (p.y - q.y) ∧
      (t.apply p).y - (t.apply q).y = t.d * (p.x - q.x) + t.e * (p.y - q.y) := by
  constructor <;> simp only [apply] <;> ring

theorem det_ne_zero [LawfulBEq α] (t : Transform α) : t.det ≠ 0 := by
  have different := beq_eq_false_iff_ne.mp t.regular
  rwa [Nat.cast_zero] at different

/-- The origin and one step along each axis tell transforms apart. -/
theorem ext_apply (same : ∀ p, s.apply p = t.apply p) : s = t := by
  obtain ⟨hc, hf⟩ := Coord.mk.inj (same ⟨0, 0⟩)
  obtain ⟨ha, hd⟩ := Coord.mk.inj (same ⟨1, 0⟩)
  obtain ⟨hb, he⟩ := Coord.mk.inj (same ⟨0, 1⟩)
  simp only [zero_mul, one_mul, zero_add, add_zero] at hc hf ha hd hb he
  rw [hc, add_left_inj] at ha hb
  rw [hf, add_left_inj] at hd he
  obtain ⟨a, b, c, d, e, f, regular⟩ := s
  simp_all only

end Images

section Order

variable {α : Type} [CommRing α] [Lattice α] [BEq α] [Scalar α] [Exact α] {a b c d e f : α}
  {t : Transform α}

theorem build_eq_ok (t : Transform α) : build t.a t.b t.c t.d t.e t.f = .ok t := by
  simp only [build, Exact.isFinite_eq, Bool.not_true, List.find?_cons, List.find?_nil]
  exact dif_pos t.regular

theorem build_eq_ok_iff : build a b c d e f = .ok t ↔
    a = t.a ∧ b = t.b ∧ c = t.c ∧ d = t.d ∧ e = t.e ∧ f = t.f := by
  constructor
  · intro h
    simp only [build, Exact.isFinite_eq, Bool.not_true, List.find?_cons, List.find?_nil] at h
    split at h
    · cases h
      exact ⟨rfl, rfl, rfl, rfl, rfl, rfl⟩
    · contradiction
  · rintro ⟨rfl, rfl, rfl, rfl, rfl, rfl⟩
    exact build_eq_ok t

/-- Six numbers are coefficients exactly if their determinant is not zero. -/
theorem exists_build_iff [LawfulBEq α] :
    (∃ t, build a b c d e f = .ok t) ↔ determinant a b d e ≠ 0 := by
  constructor
  · rintro ⟨t, accepted⟩
    obtain ⟨rfl, rfl, _, rfl, rfl, _⟩ := build_eq_ok_iff.mp accepted
    exact t.det_ne_zero
  · intro nonzero
    rw [← Nat.cast_zero (R := α)] at nonzero
    exact ⟨_, build_eq_ok ⟨a, b, c, d, e, f, beq_eq_false_iff_ne.mpr nonzero⟩⟩

/-- Coefficients are read back as they are written, in each order. -/
theorem ofCoefficients_eq_ok_iff {order : CoefficientOrder} {coefficients : List α} :
    ofCoefficients order coefficients = .ok t ↔ t.coefficients order = coefficients := by
  constructor
  · intro h
    unfold ofCoefficients at h
    split at h
    · obtain ⟨rfl, rfl, rfl, rfl, rfl, rfl⟩ := build_eq_ok_iff.mp h
      rfl
    · obtain ⟨rfl, rfl, rfl, rfl, rfl, rfl⟩ := build_eq_ok_iff.mp h
      rfl
    · contradiction
  · rintro rfl
    cases order <;> exact build_eq_ok t

end Order

end Transform

end HexCover
