import HexCover.Proofs.Coefficients
import Mathlib.Data.Rat.Floor
import Mathlib.Tactic.LinearCombination

/-! Inverse transforms, in exact arithmetic. Every transform has an inverse that takes each
image back to its point, and it is the only transform that does. So the inverse of the inverse
is the transform itself. The inverse finds the column and the row of a pixel from the map
coordinate of its centre. -/
namespace HexCover.Transform

variable {α : Type} [Field α] [BEq α] {s t : Transform α}

/-- What one transform does is undone by another one. -/
def TakesBack (s t : Transform α) : Prop := ∀ p, s.apply (t.apply p) = p

/-- The linear parts of a transform and of one that takes it back are inverse matrices. -/
theorem TakesBack.linear (back : s.TakesBack t) :
    (s.a * t.a + s.b * t.d = 1 ∧ s.d * t.a + s.e * t.d = 0) ∧
      s.a * t.b + s.b * t.e = 0 ∧ s.d * t.b + s.e * t.e = 1 := by
  have difference (p q : Coord α) := s.apply_sub_apply (t.apply p) (t.apply q)
  simp only [back _, (t.apply_sub_apply _ _).1, (t.apply_sub_apply _ _).2] at difference
  obtain ⟨hx, hy⟩ := difference ⟨1, 0⟩ ⟨0, 0⟩
  obtain ⟨kx, ky⟩ := difference ⟨0, 1⟩ ⟨0, 0⟩
  simp only [sub_zero, sub_self, mul_one, mul_zero, add_zero, zero_add] at hx hy kx ky
  exact ⟨⟨hx.symm, hy.symm⟩, kx.symm, ky.symm⟩

theorem TakesBack.det_mul_det (back : s.TakesBack t) : s.det * t.det = 1 := by
  obtain ⟨⟨xx, xy⟩, yx, yy⟩ := back.linear
  calc s.det * t.det
      = (s.a * t.a + s.b * t.d) * (s.d * t.b + s.e * t.e) -
          (s.a * t.b + s.b * t.e) * (s.d * t.a + s.e * t.d) := by
        simp only [det, determinant]
        ring
    _ = 1 := by rw [xx, xy, yx, yy, mul_one, mul_zero, sub_zero]

section Inverse

variable [LawfulBEq α]

theorem det_mul_one_div (t : Transform α) : (t.a * t.e - t.b * t.d) * (1 / t.det) = 1 :=
  mul_one_div_cancel t.det_ne_zero

/-- The transform whose linear part is made of the cofactors over the determinant, and that
takes the image of the origin back. -/
def inverse (t : Transform α) : Transform α where
  a := t.e * (1 / t.det)
  b := -t.b * (1 / t.det)
  c := -t.c * (t.e * (1 / t.det)) - t.f * (-t.b * (1 / t.det))
  d := -t.d * (1 / t.det)
  e := t.a * (1 / t.det)
  f := -t.c * (-t.d * (1 / t.det)) - t.f * (t.a * (1 / t.det))
  regular := by
    have reciprocal : determinant (t.e * (1 / t.det)) (-t.b * (1 / t.det)) (-t.d * (1 / t.det))
        (t.a * (1 / t.det)) = 1 / t.det := by
      rw [determinant]
      linear_combination 1 / t.det * t.det_mul_one_div
    rw [beq_eq_false_iff_ne, reciprocal, Nat.cast_zero]
    exact one_div_ne_zero t.det_ne_zero

theorem inverse_takesBack (t : Transform α) : t.inverse.TakesBack t := by
  rintro ⟨x, y⟩
  have unit := t.det_mul_one_div
  simp only [apply, inverse, Coord.mk.injEq]
  constructor
  · linear_combination x * unit
  · linear_combination y * unit

theorem takesBack_inverse (t : Transform α) : t.TakesBack t.inverse := by
  rintro ⟨x, y⟩
  have unit := t.det_mul_one_div
  simp only [apply, inverse, Coord.mk.injEq]
  constructor
  · linear_combination (x - t.c) * unit
  · linear_combination (y - t.f) * unit

theorem takesBack_iff : s.TakesBack t ↔ s = t.inverse := by
  constructor
  · intro back
    apply ext_apply
    intro p
    rw [← t.takesBack_inverse p, back, t.takesBack_inverse p]
  · rintro rfl
    exact t.inverse_takesBack

theorem inverse_inverse (t : Transform α) : t.inverse.inverse = t :=
  (takesBack_iff.mp t.takesBack_inverse).symm

theorem det_inverse (t : Transform α) : t.inverse.det = 1 / t.det :=
  eq_one_div_of_mul_eq_one_left t.inverse_takesBack.det_mul_det

theorem invert_eq [Lattice α] [Scalar α] [Exact α] (t : Transform α) :
    t.invert = .ok t.inverse := by
  rw [invert, Nat.cast_one]
  exact t.inverse.build_eq_ok

/-- Nothing else takes a transform back. -/
theorem invert_eq_ok_iff [Lattice α] [Scalar α] [Exact α] :
    t.invert = .ok s ↔ s.TakesBack t := by
  rw [invert_eq, Except.ok.injEq, takesBack_iff, eq_comm]

end Inverse

section Pixels

omit [BEq α] in
theorem half_eq : (half : α) = 1 / 2 := by rw [half, Nat.cast_one, Nat.cast_ofNat]

theorem TakesBack.apply_pixelCenter (back : s.TakesBack t) (col row : Nat) :
    s.apply (t.pixelCenter col row) = ⟨col + 1 / 2, row + 1 / 2⟩ := by
  rw [pixelCenter, half_eq, back]

omit [BEq α] in
theorem floor_add_half [LinearOrder α] [IsStrictOrderedRing α] [FloorRing α] (n : Nat) :
    ⌊(n : α) + 1 / 2⌋ = n := by
  have below : (1 / 2 : α) < 1 := one_half_lt_one
  rw [Int.floor_eq_iff, Int.cast_natCast]
  exact ⟨le_add_of_nonneg_right one_half_pos.le, add_lt_add_right below _⟩

end Pixels

/-- A transform is inverted without fail, by the one transform that takes it back. It takes its
inverse back in turn. The determinants are reciprocal, and inverting twice
changes nothing. The centre of a pixel is taken back to the middle of the pixel, which lies
over its column and row. A transform is read from exactly the coefficients that are written
for it, in either order, and both orders read the same transforms: those whose determinant is
not zero. -/
theorem invert_laws [LinearOrder α] [IsStrictOrderedRing α] [FloorRing α] [LawfulBEq α]
    [Scalar α] [Exact α] (t : Transform α) :
    (∃ s, t.invert = .ok s ∧ (∀ p, s.apply (t.apply p) = p) ∧ (∀ p, t.apply (s.apply p) = p) ∧
      s.det = 1 / t.det ∧ s.invert = .ok t ∧
      ∀ col row : Nat, s.apply (t.pixelCenter col row) = ⟨col + 1 / 2, row + 1 / 2⟩ ∧
        ⌊(s.apply (t.pixelCenter col row)).x⌋ = col ∧
        ⌊(s.apply (t.pixelCenter col row)).y⌋ = row) ∧
    (∀ s, t.invert = .ok s ↔ ∀ p, s.apply (t.apply p) = p) ∧
    (∀ order coefficients,
      ofCoefficients order coefficients = .ok t ↔ t.coefficients order = coefficients) ∧
    ∀ a b c d e f : α,
      ofCoefficients .affine [a, b, c, d, e, f] = ofCoefficients .gdal [c, a, b, f, d, e] ∧
      ((∃ u, ofCoefficients .affine [a, b, c, d, e, f] = .ok u) ↔ determinant a b d e ≠ 0) := by
  refine ⟨⟨t.inverse, t.invert_eq, t.inverse_takesBack, t.takesBack_inverse, t.det_inverse,
    ?_, ?_⟩, fun _ => invert_eq_ok_iff, fun _ _ => ofCoefficients_eq_ok_iff,
    fun a b c d e f => ⟨rfl, exists_build_iff⟩⟩
  · rw [invert_eq, inverse_inverse]
  · intro col row
    rw [t.inverse_takesBack.apply_pixelCenter]
    exact ⟨rfl, floor_add_half col, floor_add_half row⟩

def turned : Transform ℚ := ⟨1, -2, 5, 3, 1, -7, by decide +kernel⟩

theorem invert_laws_turned :
    determinant (1 : ℚ) (-2) 3 1 = 7 ∧ ofCoefficients .gdal [5, 1, -2, -7, 3, 1] = .ok turned ∧
      (∃ u, ofCoefficients .affine [(1 : ℚ), -2, 5, 3, 1, -7] = .ok u) ∧
      ∃ s, turned.invert = .ok s ∧ s.apply (turned.apply ⟨4, 9⟩) = ⟨4, 9⟩ ∧ s.det = 1 / 7 ∧
        s.invert = .ok turned ∧ ⌊(s.apply (turned.pixelCenter 4 9)).y⌋ = 9 := by
  have det : determinant (1 : ℚ) (-2) 3 1 = 7 := by decide +kernel
  obtain ⟨⟨s, inverted, back, _, reciprocal, again, pixels⟩, _, read, orders⟩ := turned.invert_laws
  refine ⟨det, (read .gdal _).mpr rfl, ?_, s, inverted, back _, ?_, again, (pixels 4 9).2.2⟩
  · exact (orders 1 (-2) 5 3 1 (-7)).2.mpr (by rw [det]; decide)
  · rw [reciprocal]
    decide +kernel

end HexCover.Transform
