import HexCover.Binary
import Mathlib.Algebra.Divisibility.Basic
import Mathlib.Algebra.Group.Nat.Hom
import Mathlib.Order.Basic

/-! The fields of bit patterns. Magnitudes up to infinity and the quiet pattern leave the
sign bit free, so a signed magnitude is read as what it was put together from. -/
namespace HexCover.Binary.Format

variable {f : Format} (fraction : 0 < f.fractionBits)
include fraction

/-- A fraction of at least one bit tells the quiet pattern from infinity. -/
theorem quietNaN_bounds : f.infinity < f.quietNaN ∧ f.quietNaN < f.signWeight := by
  obtain ⟨e, m⟩ := f
  cases m with
  | zero => contradiction
  | succ m =>
    have half : 0 < 2 ^ m := Nat.two_pow_pos m
    have block : 0 < 2 ^ e := Nat.two_pow_pos e
    have split : (2 ^ e - 1) * 2 ^ (m + 1) + 2 ^ (m + 1) = 2 ^ (e + (m + 1)) := by
      rw [← Nat.succ_mul, Nat.succ_eq_add_one, Nat.sub_add_cancel block, ← Nat.pow_add]
    simp only [quietNaN, infinity, signWeight, Nat.add_sub_cancel]
    rw [Nat.pow_succ] at split ⊢
    omega

theorem even_withSign {magnitude : Nat} (negative : Bool) (even : magnitude % 2 = 0) :
    f.withSign negative magnitude % 2 = 0 := by
  have weight : f.signWeight % 2 = 0 :=
    Nat.mod_eq_zero_of_dvd (dvd_pow_self 2 (Nat.ne_of_gt (Nat.add_pos_right _ fraction)))
  unfold withSign
  split <;> omega

section Signed

variable {magnitude : Nat} (negative : Bool) (number : magnitude ≤ f.infinity)
include number

theorem withSign_lt : f.withSign negative magnitude < 2 * f.signWeight := by
  obtain ⟨above, below⟩ := quietNaN_bounds fraction
  unfold withSign
  split <;> omega

theorem magnitude_withSign : f.magnitude (f.withSign negative magnitude) = magnitude := by
  obtain ⟨above, below⟩ := quietNaN_bounds fraction
  have small : magnitude < f.signWeight := by omega
  cases negative <;> simp [Format.magnitude, withSign, Nat.mod_eq_of_lt small]

theorem isNegative_withSign : f.isNegative (f.withSign negative magnitude) = negative := by
  obtain ⟨above, below⟩ := quietNaN_bounds fraction
  have small : magnitude < f.signWeight := by omega
  have positive : 0 < f.signWeight := by omega
  cases negative <;>
    simp [isNegative, withSign, Nat.div_eq_of_lt small, Nat.add_div_left _ positive]

theorem rank_withSign : f.rank (f.withSign negative magnitude) =
    if negative then -(magnitude : Int) else magnitude := by
  simp only [rank, magnitude_withSign fraction negative number,
    isNegative_withSign fraction negative number, Nat.not_lt.mpr number, if_false]

theorem read_withSign : f.read (f.withSign negative magnitude) =
    if magnitude = f.infinity then .infinite negative
    else .finite negative (f.units magnitude) := by
  simp only [read, magnitude_withSign fraction negative number,
    isNegative_withSign fraction negative number, Nat.not_lt.mpr number, if_false]

end Signed

end HexCover.Binary.Format
