import HexCover.Proofs.Coefficients
import Mathlib.Algebra.Order.Ring.Abs
import Mathlib.Order.Interval.Set.UnorderedInterval

/-! Images of rectangles under transforms, in exact arithmetic. The rectangle between the
images of two opposite corners is as wide as the two terms of a coordinate are when they are
added up. It holds the images of the other two corners, and then those of all points, exactly
if the terms of each coordinate do not have opposite signs. Otherwise a part of the image is
outside, and the rectangle may even have no width at all. -/
namespace HexCover

section Rectangles

variable {α : Type} [LinearOrder α] {p q z : Coord α}

/-- A point lies in a rectangle, or on its sides. -/
def Rect.Contains (r : Rect α) (p : Coord α) : Prop :=
  (r.low.x ≤ p.x ∧ p.x ≤ r.high.x) ∧ r.low.y ≤ p.y ∧ p.y ≤ r.high.y

instance (r : Rect α) (p : Coord α) : Decidable (r.Contains p) :=
  inferInstanceAs (Decidable ((_ ∧ _) ∧ _ ∧ _))

/-- The corners of a rectangle are in order. -/
structure Rect.Upright (r : Rect α) : Prop where
  x : r.low.x ≤ r.high.x
  y : r.low.y ≤ r.high.y

def Rect.extent [Sub α] (r : Rect α) : Coord α := ⟨r.high.x - r.low.x, r.high.y - r.low.y⟩

theorem ordered_eq (a b : α) : ordered a b = (min a b, max a b) := by
  rw [ordered]
  split
  · next less => rw [min_eq_left less.le, max_eq_right less.le]
  · next le => rw [min_eq_right (not_lt.mp le), max_eq_left (not_lt.mp le)]

theorem spanning_eq (p q : Coord α) :
    Rect.spanning p q = ⟨⟨min p.x q.x, min p.y q.y⟩, ⟨max p.x q.x, max p.y q.y⟩⟩ := by
  simp only [Rect.spanning, ordered_eq]

theorem contains_spanning_iff :
    (Rect.spanning p q).Contains z ↔ z.x ∈ Set.uIcc p.x q.x ∧ z.y ∈ Set.uIcc p.y q.y := by
  rw [spanning_eq]
  rfl

end Rectangles

section Terms

variable {α : Type} [CommRing α] [LinearOrder α] [IsStrictOrderedRing α] {m n w h s x y : α}

theorem mul_mem_uIcc (nonneg : 0 ≤ s) (le : s ≤ w) : m * s ∈ Set.uIcc 0 (m * w) := by
  rcases le_total 0 m with sign | sign
  · exact Set.mem_uIcc.mpr (.inl ⟨mul_nonneg sign nonneg, mul_le_mul_of_nonneg_left le sign⟩)
  · exact Set.mem_uIcc.mpr
      (.inr ⟨mul_le_mul_of_nonpos_left le sign, mul_nonpos_of_nonpos_of_nonneg sign nonneg⟩)

theorem sub_mem_uIcc_iff {a b : α} : x - a ∈ Set.uIcc 0 (b - a) ↔ x ∈ Set.uIcc a b := by
  simp only [Set.mem_uIcc, sub_nonneg, sub_nonpos, sub_le_sub_iff_right]

/-- Terms of one sign cannot leave the interval up to their sum. -/
theorem add_mem_uIcc {a b : α} (signs : 0 ≤ a * b) (hx : x ∈ Set.uIcc 0 a)
    (hy : y ∈ Set.uIcc 0 b) : x + y ∈ Set.uIcc 0 (a + b) := by
  rcases mul_nonneg_iff.mp signs with ⟨ha, hb⟩ | ⟨ha, hb⟩
  · rw [Set.uIcc_of_le ha] at hx
    rw [Set.uIcc_of_le hb] at hy
    exact Set.mem_uIcc.mpr (.inl ⟨add_nonneg hx.1 hy.1, add_le_add hx.2 hy.2⟩)
  · rw [Set.uIcc_of_ge ha] at hx
    rw [Set.uIcc_of_ge hb] at hy
    exact Set.mem_uIcc.mpr (.inr ⟨add_le_add hx.1 hy.1, add_nonpos hx.2 hy.2⟩)

/-- A term that stays in the interval up to a sum has the sign of the other term. -/
theorem mul_nonneg_of_mem_uIcc {a b : α} (member : a ∈ Set.uIcc 0 (a + b)) : 0 ≤ a * b := by
  rcases Set.mem_uIcc.mp member with ⟨ha, le⟩ | ⟨le, ha⟩
  · exact mul_nonneg ha (le_add_iff_nonneg_right a |>.mp le)
  · exact mul_nonneg_of_nonpos_of_nonpos ha (add_le_iff_nonpos_right a |>.mp le)

/-- All the values that two terms add up to lie in between exactly if the terms do not have
opposite signs. -/
theorem forall_mem_uIcc_iff (hw : 0 ≤ w) (hh : 0 ≤ h) :
    (∀ s t, 0 ≤ s → s ≤ w → 0 ≤ t → t ≤ h → m * s + n * t ∈ Set.uIcc 0 (m * w + n * h)) ↔
      0 ≤ m * w * (n * h) := by
  constructor
  · intro inside
    have corner := inside w 0 hw le_rfl le_rfl hh
    rw [mul_zero, add_zero] at corner
    exact mul_nonneg_of_mem_uIcc corner
  · intro signs s t hs hsw ht hth
    exact add_mem_uIcc signs (mul_mem_uIcc hs hsw) (mul_mem_uIcc ht hth)

theorem eq_zero_of_mul_nonneg {a b : α} (signs : 0 ≤ a * b) (sum : a + b = 0) :
    a = 0 ∧ b = 0 := by
  obtain rfl := eq_neg_of_add_eq_zero_right sum
  rw [mul_neg, neg_nonneg] at signs
  have zero : a = 0 := mul_self_eq_zero.mp (le_antisymm signs (mul_self_nonneg a))
  rw [zero, neg_zero]
  exact ⟨rfl, rfl⟩

end Terms

section Pixels

variable {α : Type} [CommRing α] {col row : Nat} {p : Coord α}

/-- The square of a pixel. -/
def pixel (col row : Nat) : Rect α := ⟨⟨col, row⟩, ⟨col + 1, row + 1⟩⟩

theorem pixel_extent : (pixel col row : Rect α).extent = ⟨1, 1⟩ := by
  simp only [pixel, Rect.extent, add_sub_cancel_left]

variable [LinearOrder α] [IsStrictOrderedRing α]

theorem upright_pixel : (pixel col row : Rect α).Upright :=
  ⟨le_add_of_nonneg_right zero_le_one, le_add_of_nonneg_right zero_le_one⟩

theorem pixel_contains_iff : (pixel col row : Rect α).Contains p ↔
    ∃ u ∈ Set.Icc (0 : α) 1, ∃ v ∈ Set.Icc (0 : α) 1, p = ⟨col + u, row + v⟩ := by
  constructor
  · rintro ⟨⟨x₀, x₁⟩, y₀, y₁⟩
    refine ⟨p.x - col, ⟨sub_nonneg.mpr x₀, sub_le_iff_le_add'.mpr x₁⟩,
      p.y - row, ⟨sub_nonneg.mpr y₀, sub_le_iff_le_add'.mpr y₁⟩, ?_⟩
    rw [add_sub_cancel, add_sub_cancel]
  · rintro ⟨u, ⟨u₀, u₁⟩, v, ⟨v₀, v₁⟩, rfl⟩
    exact ⟨⟨le_add_of_nonneg_right u₀, add_le_add_right u₁ _⟩,
      le_add_of_nonneg_right v₀, add_le_add_right v₁ _⟩

end Pixels

namespace Transform

variable {α : Type} [CommRing α] [LinearOrder α] [IsStrictOrderedRing α] [BEq α] {t : Transform α}
  {r : Rect α} {p : Coord α}

/-- Seen from the image of the lower corner, an image is inside if each coordinate lies
between zero and what the whole extent contributes. -/
theorem applyRect_contains_apply_iff : (t.applyRect r).Contains (t.apply p) ↔
    t.a * (p.x - r.low.x) + t.b * (p.y - r.low.y) ∈
        Set.uIcc 0 (t.a * r.extent.x + t.b * r.extent.y) ∧
      t.d * (p.x - r.low.x) + t.e * (p.y - r.low.y) ∈
        Set.uIcc 0 (t.d * r.extent.x + t.e * r.extent.y) := by
  obtain ⟨px, py⟩ := t.apply_sub_apply p r.low
  obtain ⟨hx, hy⟩ := t.apply_sub_apply r.high r.low
  rw [applyRect, contains_spanning_iff, ← sub_mem_uIcc_iff, px, hx]
  refine and_congr_right' ?_
  rw [← sub_mem_uIcc_iff, py, hy]
  rfl

/-- Which rectangles have an image that is inside the rectangle between the images of two
corners. -/
theorem applyRect_covers_iff (upright : r.Upright) :
    (∀ p, r.Contains p → (t.applyRect r).Contains (t.apply p)) ↔
      0 ≤ t.a * r.extent.x * (t.b * r.extent.y) ∧ 0 ≤ t.d * r.extent.x * (t.e * r.extent.y) := by
  have width : 0 ≤ r.extent.x := sub_nonneg.mpr upright.x
  have height : 0 ≤ r.extent.y := sub_nonneg.mpr upright.y
  rw [← forall_mem_uIcc_iff width height, ← forall_mem_uIcc_iff width height]
  simp only [applyRect_contains_apply_iff]
  constructor
  · intro covers
    have point : ∀ s t, 0 ≤ s → s ≤ r.extent.x → 0 ≤ t → t ≤ r.extent.y →
        r.Contains ⟨r.low.x + s, r.low.y + t⟩ := by
      intro s t hs hsw ht hth
      exact ⟨⟨le_add_of_nonneg_right hs, le_sub_iff_add_le'.mp hsw⟩,
        le_add_of_nonneg_right ht, le_sub_iff_add_le'.mp hth⟩
    constructor
    · intro s t hs hsw ht hth
      have inside := (covers _ (point s t hs hsw ht hth)).1
      simpa using inside
    · intro s t hs hsw ht hth
      have inside := (covers _ (point s t hs hsw ht hth)).2
      simpa using inside
  · rintro ⟨first, second⟩ p ⟨⟨x₀, x₁⟩, y₀, y₁⟩
    constructor
    · exact first _ _ (sub_nonneg.mpr x₀) (sub_le_sub_right x₁ _) (sub_nonneg.mpr y₀)
        (sub_le_sub_right y₁ _)
    · exact second _ _ (sub_nonneg.mpr x₀) (sub_le_sub_right x₁ _) (sub_nonneg.mpr y₀)
        (sub_le_sub_right y₁ _)

omit [IsStrictOrderedRing α] in
theorem applyRect_extent [IsOrderedAddMonoid α] (t : Transform α) (r : Rect α) :
    (t.applyRect r).extent =
      ⟨|t.a * r.extent.x + t.b * r.extent.y|, |t.d * r.extent.x + t.e * r.extent.y|⟩ := by
  obtain ⟨hx, hy⟩ := t.apply_sub_apply r.high r.low
  rw [applyRect, spanning_eq, Rect.extent]
  simp only [max_sub_min_eq_abs, hx, hy]
  rfl

/-- The terms of each coordinate do not have opposite signs. -/
structure Aligned (t : Transform α) : Prop where
  x : 0 ≤ t.a * t.b
  y : 0 ≤ t.d * t.e

theorem Aligned.covers (aligned : t.Aligned) (upright : r.Upright) (inside : r.Contains p) :
    (t.applyRect r).Contains (t.apply p) := by
  have area : 0 ≤ r.extent.x * r.extent.y :=
    mul_nonneg (sub_nonneg.mpr upright.x) (sub_nonneg.mpr upright.y)
  refine (applyRect_covers_iff upright).mpr ⟨?_, ?_⟩ p inside
  · rw [mul_mul_mul_comm]
    exact mul_nonneg aligned.x area
  · rw [mul_mul_mul_comm]
    exact mul_nonneg aligned.y area

/-- No coordinate is without an extent, as a transform does not collapse pixels. -/
theorem Aligned.ne_zero [LawfulBEq α] (aligned : t.Aligned) : t.a + t.b ≠ 0 ∧ t.d + t.e ≠ 0 := by
  constructor
  · intro sum
    obtain ⟨ha, hb⟩ := eq_zero_of_mul_nonneg aligned.x sum
    apply t.det_ne_zero
    rw [det, determinant, ha, hb, zero_mul, zero_mul, sub_zero]
  · intro sum
    obtain ⟨hd, he⟩ := eq_zero_of_mul_nonneg aligned.y sum
    apply t.det_ne_zero
    rw [det, determinant, hd, he, mul_zero, mul_zero, sub_zero]

omit [IsStrictOrderedRing α] in
theorem pixelBounds_eq (t : Transform α) (col row : Nat) :
    t.pixelBounds col row = t.applyRect (pixel col row) := by
  rw [pixelBounds, pixelCorners, applyRect, pixel, Nat.cast_one]

/-- The rectangle of a pixel holds the image of the pixel exactly if the transform is
aligned. -/
theorem pixelBounds_covers_iff (col row : Nat) : (∀ p, (pixel col row : Rect α).Contains p →
    (t.pixelBounds col row).Contains (t.apply p)) ↔ t.Aligned := by
  rw [pixelBounds_eq, applyRect_covers_iff upright_pixel, pixel_extent]
  simp only [mul_one]
  exact ⟨fun ⟨x, y⟩ => ⟨x, y⟩, fun ⟨x, y⟩ => ⟨x, y⟩⟩

theorem pixelBounds_extent (t : Transform α) (col row : Nat) :
    (t.pixelBounds col row).extent = ⟨|t.a + t.b|, |t.d + t.e|⟩ := by
  rw [pixelBounds_eq, applyRect_extent, pixel_extent]
  simp only [mul_one]

/-- The rectangle of a pixel holds all of the pixel exactly if the transform is aligned, and
an aligned transform keeps every rectangle inside. For a single rectangle the signs of the
contributions of its sides decide. The rectangle of a pixel is as wide and high as both terms
together. For an aligned transform that is never nothing, and one that neither rotates nor
shears is aligned. The diagonal between the two corners is always inside. -/
theorem pixelBounds_cover [LawfulBEq α] (t : Transform α) :
    (∀ col row : Nat, (∀ u ∈ Set.Icc (0 : α) 1, ∀ v ∈ Set.Icc (0 : α) 1,
      (t.pixelBounds col row).Contains (t.apply ⟨col + u, row + v⟩)) ↔ t.Aligned) ∧
    (t.Aligned → ∀ r : Rect α, r.Upright →
      ∀ p, r.Contains p → (t.applyRect r).Contains (t.apply p)) ∧
    (∀ r : Rect α, r.Upright → ((∀ p, r.Contains p → (t.applyRect r).Contains (t.apply p)) ↔
      0 ≤ t.a * r.extent.x * (t.b * r.extent.y) ∧
        0 ≤ t.d * r.extent.x * (t.e * r.extent.y))) ∧
    (∀ col row : Nat, (t.pixelBounds col row).extent = ⟨|t.a + t.b|, |t.d + t.e|⟩) ∧
    (t.Aligned → 0 < |t.a + t.b| ∧ 0 < |t.d + t.e|) ∧
    (t.b = 0 → t.d = 0 → t.Aligned) ∧
    (∀ col row : Nat, ∀ u ∈ Set.Icc (0 : α) 1,
      (t.pixelBounds col row).Contains (t.apply ⟨col + u, row + u⟩)) := by
  refine ⟨?_, ?_, fun r upright => applyRect_covers_iff upright, t.pixelBounds_extent, ?_, ?_, ?_⟩
  · intro col row
    rw [← pixelBounds_covers_iff col row]
    constructor
    · rintro covers p inside
      obtain ⟨u, hu, v, hv, rfl⟩ := pixel_contains_iff.mp inside
      exact covers u hu v hv
    · intro covers u hu v hv
      exact covers _ (pixel_contains_iff.mpr ⟨u, hu, v, hv, rfl⟩)
  · exact fun aligned r upright p inside => aligned.covers upright inside
  · intro aligned
    exact ⟨abs_pos.mpr aligned.ne_zero.1, abs_pos.mpr aligned.ne_zero.2⟩
  · intro hb hd
    constructor
    · rw [hb, mul_zero]
    · rw [hd, zero_mul]
  · intro col row u hu
    rw [pixelBounds_eq, applyRect_contains_apply_iff, pixel_extent]
    simp only [pixel, add_sub_cancel_left, ← add_mul]
    exact ⟨mul_mem_uIcc hu.1 hu.2, mul_mem_uIcc hu.1 hu.2⟩

/-- A transform that shears pixels without turning the sides away from each other. -/
def sheared : Transform ℚ := ⟨2, 1, 0, 1, 2, 0, by decide +kernel⟩

/-- A turn by an eighth of a circle, enlarged. -/
def tilted : Transform ℚ := ⟨1, -1, 0, 1, 1, 0, by decide +kernel⟩

theorem pixelBounds_cover_sheared :
    sheared.Aligned ∧ (pixel 3 5 : Rect ℚ).Upright ∧
      (sheared.pixelBounds 3 5).Contains (sheared.apply ⟨(3 : Nat) + 1, (5 : Nat) + 0⟩) ∧
      (sheared.pixelBounds 3 5).extent = ⟨3, 3⟩ := by
  have aligned : sheared.Aligned := ⟨by decide +kernel, by decide +kernel⟩
  obtain ⟨covers, _, _, extent, _⟩ := sheared.pixelBounds_cover
  refine ⟨aligned, upright_pixel, ?_, ?_⟩
  · exact (covers 3 5).mpr aligned 1 ⟨zero_le_one, le_rfl⟩ 0 ⟨le_rfl, zero_le_one⟩
  · rw [extent]
    decide +kernel

/-- An accepted transform under which the rectangle of a pixel has no width and misses the
image of a corner. -/
theorem pixelBounds_tilted :
    build (1 : ℚ) (-1) 0 1 1 0 = .ok tilted ∧
      ¬ (tilted.pixelBounds 0 0).Contains (tilted.apply ⟨(0 : Nat) + 1, (0 : Nat) + 0⟩) ∧
      (tilted.pixelBounds 0 0).extent = ⟨0, 2⟩ :=
  ⟨tilted.build_eq_ok, by decide +kernel, by decide +kernel⟩

end Transform

end HexCover
