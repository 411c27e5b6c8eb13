import HexCover.Proofs.Binary.Units
import Mathlib.Algebra.Order.Field.Basic
import Mathlib.Algebra.Order.Ring.Rat
import Mathlib.Tactic.FieldSimp
import Mathlib.Tactic.Linarith
import Mathlib.Tactic.NormNum
import Mathlib.Tactic.Positivity

/-! Rounding to the nearest pattern. A quotient is rounded to the nearest integer, and a
pattern is chosen by rounding the significand: no pattern stands for a nearer number of
units, and of two that are equally near the even one is taken. So a quotient is rounded to
infinity from halfway between the largest number and the one that would follow it. -/
namespace HexCover

/-- A quotient is rounded by at most half a denominator, and by that to an even integer. -/
theorem roundHalfEven_error (num : Nat) {den : Nat} (positive : 0 < den) :
    |2 * ((roundHalfEven num den * den : Nat) - num : ℤ)| ≤ den ∧
      (|2 * ((roundHalfEven num den * den : Nat) - num : ℤ)| = den →
        roundHalfEven num den % 2 = 0) := by
  have whole := Nat.div_add_mod' num den
  have rest := Nat.mod_lt num positive
  unfold roundHalfEven
  generalize num / den = q at *
  generalize num % den = r at *
  dsimp only
  have next : (q + 1) * den = q * den + den := Nat.succ_mul q den
  split
  · rw [abs_of_nonpos] <;> omega
  · split
    · rw [abs_of_nonneg] <;> omega
    · rcases Nat.mod_two_eq_zero_or_one q with even | odd
      · rw [even, Nat.add_zero, abs_of_nonpos] <;> omega
      · rw [odd, abs_of_nonneg] <;> omega

theorem roundHalfEven_half (num : Nat) {den : Nat} (positive : 0 < den) :
    |(roundHalfEven num den : ℚ) - num / den| ≤ 1 / 2 ∧
      (|(roundHalfEven num den : ℚ) - num / den| = 1 / 2 → roundHalfEven num den % 2 = 0) := by
  have pos : (0 : ℚ) < den := Nat.cast_pos.mpr positive
  obtain ⟨half, tie⟩ := roundHalfEven_error num positive
  generalize roundHalfEven num den = s at *
  have scaled : |(s : ℚ) - num / den| = (|2 * ((s * den : Nat) - num : ℤ)| : ℤ) / (2 * den) := by
    have error : (s : ℚ) - num / den = (2 * ((s * den : Nat) - num : ℤ) : ℤ) / (2 * den) := by
      push_cast
      field_simp
    rw [error, abs_div, abs_of_pos (by positivity : (0 : ℚ) < 2 * den), Int.cast_abs]
  rw [scaled, div_le_iff₀ (by positivity), div_eq_iff (by positivity)]
  have one : 1 / 2 * (2 * (den : ℚ)) = (den : ℤ) := by
    push_cast
    ring
  rw [one, Int.cast_le, Int.cast_inj]
  exact ⟨half, tie⟩

theorem roundHalfEven_bounds (num den : Nat) :
    num / den ≤ roundHalfEven num den ∧ roundHalfEven num den ≤ num / den + 1 := by
  unfold roundHalfEven
  dsimp only
  split
  · omega
  · split <;> omega

/-- No integer is nearer than one within a half. -/
theorem nearest_of_half {s : Nat} {y : ℚ} (half : |(s : ℚ) - y| ≤ 1 / 2) (k : Nat) :
    |(s : ℚ) - y| ≤ |(k : ℚ) - y| ∧
      (|(s : ℚ) - y| = |(k : ℚ) - y| → k = s ∨ |(s : ℚ) - y| = 1 / 2) := by
  rcases eq_or_ne k s with rfl | other
  · exact ⟨le_rfl, fun _ => .inl rfl⟩
  · have apart : (1 : ℚ) ≤ |(k : ℚ) - s| := by
      have differ : (k : ℤ) - s ≠ 0 := sub_ne_zero.mpr (Nat.cast_injective.ne other)
      exact_mod_cast Int.one_le_abs differ
    have triangle := abs_sub_le (k : ℚ) y s
    rw [abs_sub_comm y] at triangle
    exact ⟨by linarith, fun same => .inr (by linarith)⟩

namespace Binary.Format

/-- A pattern whose units are as near to `x` as those of any other, and which is even if
another one is equally near. -/
structure Rounds (f : Format) (x : ℚ) (p : Nat) : Prop where
  nearest : ∀ m, |(f.units p : ℚ) - x| ≤ |(f.units m : ℚ) - x|
  even : ∀ m, |(f.units p : ℚ) - x| = |(f.units m : ℚ) - x| → m = p ∨ p % 2 = 0

variable (f : Format)

/-- The exponent steps of a quotient of units above the finest one. -/
def shift (num den : Nat) : Nat := Nat.log2 (num / den) + 1 - (f.fractionBits + 1)

/-- The nearest pattern if there were no largest number. -/
def unbounded (num den : Nat) : Nat :=
  f.shift num den * 2 ^ f.fractionBits + roundHalfEven num (den * 2 ^ f.shift num den)

theorem nearest_eq (num den : Nat) : f.nearest num den = min f.infinity (f.unbounded num den) :=
  rfl

section Quotient

variable (num : Nat) {den : Nat} (positive : 0 < den)
include positive

theorem lt_shift : num < 2 * 2 ^ f.fractionBits * (den * 2 ^ f.shift num den) := by
  have log : num / den < 2 ^ (f.fractionBits + 1 + f.shift num den) := by
    apply Nat.lt_of_lt_of_le Nat.lt_log2_self
    apply Nat.pow_le_pow_right Nat.two_pos
    unfold shift
    omega
  calc num < 2 ^ (f.fractionBits + 1 + f.shift num den) * den :=
        (Nat.div_lt_iff_lt_mul positive).mp log
    _ = 2 * 2 ^ f.fractionBits * (den * 2 ^ f.shift num den) := by rw [Nat.pow_add]; ring

theorem shift_le : f.shift num den = 0 ∨
    2 ^ f.fractionBits * (den * 2 ^ f.shift num den) ≤ num := by
  rcases Nat.eq_zero_or_pos (f.shift num den) with none | some
  · exact .inl none
  · right
    have log : f.fractionBits + f.shift num den = Nat.log2 (num / den) := by
      unfold shift at some ⊢
      omega
    have nonzero : num / den ≠ 0 := by
      intro zero
      rw [zero, Nat.log2_zero] at log
      omega
    calc 2 ^ f.fractionBits * (den * 2 ^ f.shift num den)
        = 2 ^ (f.fractionBits + f.shift num den) * den := by rw [Nat.pow_add]; ring
      _ ≤ num := by
        rw [log]
        exact (Nat.le_div_iff_mul_le positive).mp (Nat.log2_self_le nonzero)

/-- The units of the chosen pattern are the rounded significand, shifted back. -/
theorem units_unbounded : f.units (f.unbounded num den) =
    roundHalfEven num (den * 2 ^ f.shift num den) * 2 ^ f.shift num den := by
  have scale : 0 < den * 2 ^ f.shift num den := Nat.mul_pos positive (Nat.two_pow_pos _)
  obtain ⟨least, most⟩ := roundHalfEven_bounds num (den * 2 ^ f.shift num den)
  apply f.units_blocks
  · refine (f.shift_le num positive).imp_right fun normal => ?_
    exact Nat.le_trans ((Nat.le_div_iff_mul_le scale).mpr normal) least
  · have below := (Nat.div_lt_iff_lt_mul scale).mpr (f.lt_shift num positive)
    omega

end Quotient

/-- A number of units is a multiple of a power of two, or smaller than every significand that
is shifted by it. -/
theorem units_eq_mul_or_lt (m shift : Nat) : (∃ k, f.units m = k * 2 ^ shift) ∨
    shift ≠ 0 ∧ f.units m < 2 ^ f.fractionBits * 2 ^ shift := by
  obtain ⟨own, significand, rfl, small, scaled⟩ := f.exists_blocks m
  rw [f.units_blocks scaled (Nat.le_of_lt small)]
  rcases Nat.lt_or_ge own shift with coarser | finer
  · right
    obtain ⟨steps, rfl⟩ := Nat.exists_eq_add_of_lt coarser
    refine ⟨by omega, ?_⟩
    calc significand * 2 ^ own < 2 * 2 ^ f.fractionBits * 2 ^ own :=
          Nat.mul_lt_mul_of_pos_right small (Nat.two_pow_pos _)
      _ = 2 ^ f.fractionBits * 2 ^ (own + 1) := by ring
      _ ≤ 2 ^ f.fractionBits * 2 ^ (own + steps + 1) :=
          Nat.mul_le_mul_left _ (Nat.pow_le_pow_right Nat.two_pos (by omega))
  · left
    obtain ⟨steps, rfl⟩ := Nat.exists_eq_add_of_le finer
    exact ⟨significand * 2 ^ steps, by rw [Nat.pow_add]; ring⟩

section Nearest

/-- Distances at the scale of a significand. -/
theorem abs_shifted_sub (k shift num : Nat) {den : Nat} (positive : 0 < den) :
    |((k * 2 ^ shift : Nat) : ℚ) - num / den| =
      |(k : ℚ) - num / (den * 2 ^ shift : Nat)| * 2 ^ shift := by
  have power : (0 : ℚ) < 2 ^ shift := by positivity
  have pos : (0 : ℚ) < den := Nat.cast_pos.mpr positive
  have scaled : ((k * 2 ^ shift : Nat) : ℚ) - num / den =
      ((k : ℚ) - num / (den * 2 ^ shift : Nat)) * 2 ^ shift := by
    push_cast
    field_simp
  rw [scaled, abs_mul, abs_of_pos power]

variable {f} (fraction : 0 < f.fractionBits)
include fraction

theorem even_unbounded {num den : Nat}
    (even : roundHalfEven num (den * 2 ^ f.shift num den) % 2 = 0) :
    f.unbounded num den % 2 = 0 := by
  have block : 2 ^ f.fractionBits % 2 = 0 :=
    Nat.mod_eq_zero_of_dvd (dvd_pow_self 2 (Nat.ne_of_gt fraction))
  rw [unbounded, Nat.add_mod, Nat.mul_mod, block, even, Nat.mul_zero]

variable (num : Nat) {den : Nat} (positive : 0 < den)
include positive

theorem nearest_shifted (k : Nat) :
    |(f.units (f.unbounded num den) : ℚ) - num / den| ≤
        |((k * 2 ^ f.shift num den : Nat) : ℚ) - num / den| ∧
      (|(f.units (f.unbounded num den) : ℚ) - num / den| =
          |((k * 2 ^ f.shift num den : Nat) : ℚ) - num / den| →
        k * 2 ^ f.shift num den = f.units (f.unbounded num den) ∨
          f.unbounded num den % 2 = 0) := by
  have power : (0 : ℚ) < 2 ^ f.shift num den := by positivity
  obtain ⟨half, tie⟩ := roundHalfEven_half num
    (Nat.mul_pos positive (Nat.two_pow_pos (f.shift num den)))
  obtain ⟨nearer, same⟩ := nearest_of_half half k
  rw [f.units_unbounded num positive, abs_shifted_sub _ _ _ positive,
    abs_shifted_sub _ _ _ positive]
  refine ⟨mul_le_mul_of_nonneg_right nearer power.le, fun equal => ?_⟩
  rcases same (mul_right_cancel₀ power.ne' equal) with rfl | middle
  · exact .inl rfl
  · exact .inr (even_unbounded fraction (tie middle))

theorem rounds_unbounded : f.Rounds (num / den) (f.unbounded num den) := by
  have pos : (0 : ℚ) < den := Nat.cast_pos.mpr positive
  have compare (m : Nat) : |(f.units (f.unbounded num den) : ℚ) - num / den| ≤
        |(f.units m : ℚ) - num / den| ∧
      (|(f.units (f.unbounded num den) : ℚ) - num / den| = |(f.units m : ℚ) - num / den| →
        m = f.unbounded num den ∨ f.unbounded num den % 2 = 0) := by
    rcases f.units_eq_mul_or_lt m (f.shift num den) with ⟨k, multiple⟩ | ⟨shifted, small⟩
    · obtain ⟨nearer, same⟩ := nearest_shifted fraction num positive k
      rw [multiple]
      exact ⟨nearer, fun equal => (same equal).imp_left fun h =>
        f.units_injective (multiple.trans h)⟩
    · -- the least significand lies between such a number and the quotient
      have nearer := (nearest_shifted fraction num positive (2 ^ f.fractionBits)).1
      have least := (f.shift_le num positive).resolve_left shifted
      have below : ((2 ^ f.fractionBits * 2 ^ f.shift num den : Nat) : ℚ) ≤ num / den := by
        rw [Nat.mul_comm den, ← Nat.mul_assoc] at least
        rw [le_div_iff₀ pos]
        exact_mod_cast least
      have small : (f.units m : ℚ) < (2 ^ f.fractionBits * 2 ^ f.shift num den : Nat) :=
        Nat.cast_lt.mpr small
      rw [abs_of_nonpos (sub_nonpos.mpr below), neg_sub] at nearer
      rw [abs_of_nonpos (sub_nonpos.mpr (small.le.trans below)), neg_sub]
      exact ⟨by linarith, fun equal => by linarith⟩
  exact ⟨fun m => (compare m).1, fun m => (compare m).2⟩

end Nearest

namespace Rounds

variable {f : Format} {x : ℚ} {p : Nat} (h : f.Rounds x p)
include h

/-- The nearest pattern is nearest in numbers as well, whatever the unit is. -/
theorem scaled {unit : ℚ} (positive : 0 < unit) (m : Nat) :
    |f.units p * unit - x * unit| ≤ |f.units m * unit - x * unit| ∧
      (|f.units p * unit - x * unit| = |f.units m * unit - x * unit| → m = p ∨ p % 2 = 0) := by
  have distance (n : Nat) : |f.units n * unit - x * unit| = |(f.units n : ℚ) - x| * unit := by
    rw [← sub_mul, abs_mul, abs_of_pos positive]
  rw [distance, distance]
  exact ⟨mul_le_mul_of_nonneg_right (h.nearest m) positive.le,
    fun same => h.even m (mul_right_cancel₀ positive.ne' same)⟩

/-- A quotient is rounded below an even pattern exactly if it is below the middle between that
pattern and the one before it. -/
theorem lt_iff {n : Nat} (even : (n + 1) % 2 = 0) :
    p < n + 1 ↔ 2 * x < f.units n + f.units (n + 1) := by
  have step : (f.units n : ℚ) < f.units (n + 1) := Nat.cast_lt.mpr (f.units_lt_units_succ n)
  constructor
  · intro below
    by_contra beyond
    have least : (f.units p : ℚ) ≤ f.units n :=
      Nat.cast_le.mpr (f.units_strictMono.monotone (Nat.le_of_lt_succ below))
    have nearest := h.nearest (n + 1)
    rw [abs_of_nonpos (by linarith : (f.units p : ℚ) - x ≤ 0)] at nearest
    have other : |(f.units (n + 1) : ℚ) - x| ≤ x - f.units n :=
      abs_le.mpr ⟨by linarith, by linarith⟩
    -- the two are equally near, so the odd pattern cannot have been taken
    have last : p = n := f.units_injective (Nat.cast_injective (by linarith : (_ : ℚ) = _))
    have tie := h.even (n + 1) (by
      rw [abs_of_nonpos (by linarith : (f.units p : ℚ) - x ≤ 0)]
      linarith)
    omega
  · intro before
    by_contra beyond
    have greatest : (f.units (n + 1) : ℚ) ≤ f.units p :=
      Nat.cast_le.mpr (f.units_strictMono.monotone (Nat.le_of_not_lt beyond))
    have nearest := h.nearest n
    rw [abs_of_nonneg (by linarith : 0 ≤ (f.units p : ℚ) - x)] at nearest
    rcases abs_cases ((f.units n : ℚ) - x) with ⟨same, _⟩ | ⟨same, _⟩ <;> linarith

end Rounds

end Binary.Format

end HexCover
