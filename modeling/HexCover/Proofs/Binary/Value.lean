import HexCover.Proofs.Binary.Patterns
import HexCover.Proofs.Binary.Units
import Mathlib.Algebra.Order.Field.Basic
import Mathlib.Algebra.Order.Ring.Rat
import Mathlib.Tactic.FieldSimp
import Mathlib.Tactic.Positivity
import Mathlib.Tactic.Ring

/-! The rational numbers that bit patterns stand for. A sign, an exponent and a fraction give
a number as the formats define it; where the exponent is the greatest there is none. A
pattern that is read as a finite number of units stands for that many units, and no other
pattern stands for a number. -/
namespace HexCover.Binary

def signFactor (negative : Bool) : ℚ := if negative then -1 else 1

theorem abs_signFactor_mul (negative : Bool) (x : ℚ) : |signFactor negative * x| = |x| := by
  cases negative <;> simp [signFactor]

theorem signedUnits_eq (negative : Bool) (units : Nat) :
    ((signedUnits negative units : Int) : ℚ) = signFactor negative * units := by
  cases negative <;> simp [signedUnits, signFactor]

namespace Format

/-- The widths that a format needs so that its exponents have two sides and its fractions
are not empty. -/
structure WellFormed (f : Format) : Prop where
  exponent : 2 ≤ f.exponentBits
  fraction : 0 < f.fractionBits

/-- The exponent field of numbers from one up to two. -/
def bias (f : Format) : Nat := 2 ^ (f.exponentBits - 1) - 1

/-- The number that a bit pattern stands for. -/
def value? (f : Format) (bits : Nat) : Option ℚ :=
  let sign := signFactor (f.isNegative bits)
  let exponent := bits / 2 ^ f.fractionBits % 2 ^ f.exponentBits
  let fraction : ℚ := (bits % 2 ^ f.fractionBits : Nat) / 2 ^ f.fractionBits
  if exponent = 2 ^ f.exponentBits - 1 then none
  else if exponent = 0 then some (sign * fraction * 2 ^ (1 - f.bias : ℤ))
  else some (sign * (1 + fraction) * 2 ^ (exponent - f.bias : ℤ))

def unit (f : Format) : ℚ := 1 / 2 ^ f.unitExponent

theorem unit_pos (f : Format) : 0 < f.unit := by
  unfold unit
  positivity

theorem signedUnits_mul_unit (f : Format) (negative : Bool) (whole : Nat) :
    (signedUnits negative (whole * 2 ^ f.unitExponent) : ℚ) * f.unit =
      signedUnits negative whole := by
  rw [signedUnits_eq, signedUnits_eq, unit]
  push_cast
  field_simp

variable {f : Format}

theorem magnitude_div (bits : Nat) : f.magnitude bits / 2 ^ f.fractionBits =
    bits / 2 ^ f.fractionBits % 2 ^ f.exponentBits := by
  rw [magnitude, signWeight, Nat.add_comm, Nat.pow_add, Nat.mod_mul_right_div_self]

theorem magnitude_mod (bits : Nat) :
    f.magnitude bits % 2 ^ f.fractionBits = bits % 2 ^ f.fractionBits := by
  rw [magnitude, signWeight, Nat.add_comm, Nat.pow_add, Nat.mod_mul_right_mod]

theorem magnitude_lt_infinity_iff (bits : Nat) : f.magnitude bits < f.infinity ↔
    bits / 2 ^ f.fractionBits % 2 ^ f.exponentBits ≠ 2 ^ f.exponentBits - 1 := by
  have block : 0 < 2 ^ f.fractionBits := Nat.two_pow_pos _
  have below := Nat.mod_lt (bits / 2 ^ f.fractionBits) (Nat.two_pow_pos f.exponentBits)
  rw [infinity, ← Nat.div_lt_iff_lt_mul block, magnitude_div]
  omega

theorem read_eq_finite_iff {bits units : Nat} {negative : Bool} :
    f.read bits = .finite negative units ↔ f.magnitude bits < f.infinity ∧
      f.isNegative bits = negative ∧ f.units (f.magnitude bits) = units := by
  rcases Nat.lt_trichotomy (f.magnitude bits) f.infinity with less | same | more
  · simp [read, less, Nat.lt_asymm less, Nat.ne_of_lt less]
  · simp [read, same]
  · simp [read, more, Nat.lt_asymm more]

variable (formed : f.WellFormed)
include formed

theorem two_pow_exponentBits : 2 ^ f.exponentBits = 2 * f.bias + 2 := by
  obtain ⟨steps, bits⟩ := Nat.exists_eq_add_of_le formed.exponent
  have half : 0 < 2 ^ (1 + steps) := Nat.two_pow_pos _
  have less : 2 + steps - 1 = 1 + steps := by omega
  rw [bias, bits, less, Nat.add_assoc 1 1 steps, Nat.pow_add 2 1]
  omega

theorem bias_pos : 0 < f.bias := by
  have half : 2 ^ 1 ≤ 2 ^ (f.exponentBits - 1) :=
    Nat.pow_le_pow_right Nat.two_pos (Nat.le_sub_of_add_le formed.exponent)
  unfold bias
  omega

theorem unitExponent_succ : f.unitExponent + 1 = f.bias + f.fractionBits := by
  have positive := bias_pos formed
  unfold bias at positive ⊢
  unfold unitExponent
  omega

/-- The finest exponent step in units. -/
theorem two_zpow_one_sub_bias : (2 : ℚ) ^ (1 - f.bias : ℤ) = 2 ^ f.fractionBits * f.unit := by
  have exponents : (1 - f.bias : ℤ) = f.fractionBits - f.unitExponent := by
    have := unitExponent_succ formed
    omega
  rw [exponents, zpow_sub₀ two_ne_zero, zpow_natCast, zpow_natCast, unit]
  ring

theorem value?_eq (bits : Nat) : f.value? bits = if f.magnitude bits < f.infinity then
    some (signFactor (f.isNegative bits) * f.units (f.magnitude bits) * f.unit) else none := by
  have block : (2 : ℚ) ^ f.fractionBits ≠ 0 := by positivity
  by_cases finite : f.magnitude bits < f.infinity
  · have field := (magnitude_lt_infinity_iff bits).mp finite
    rw [if_pos finite, value?, if_neg field, units, magnitude_div, magnitude_mod]
    cases bits / 2 ^ f.fractionBits % 2 ^ f.exponentBits with
    | zero =>
      rw [if_pos rfl, if_pos rfl, two_zpow_one_sub_bias formed]
      field_simp
    | succ exponent =>
      have steps : ((exponent + 1 : Nat) - f.bias : ℤ) = exponent + (1 - f.bias) := by omega
      rw [if_neg (Nat.succ_ne_zero _), if_neg (Nat.succ_ne_zero _), steps,
        zpow_add₀ two_ne_zero, two_zpow_one_sub_bias formed, zpow_natCast]
      push_cast
      field_simp
  · have field := (magnitude_lt_infinity_iff bits).not_left.mp finite
    rw [if_neg finite, value?]
    exact if_pos field

/-- A pattern stands for the number that it is read as. -/
theorem value?_eq_some_iff {bits : Nat} {q : ℚ} : f.value? bits = some q ↔
    ∃ negative units, f.read bits = .finite negative units ∧
      signedUnits negative units * f.unit = q := by
  rw [value?_eq formed]
  constructor
  · intro stands
    split at stands
    · rename_i finite
      refine ⟨_, _, read_eq_finite_iff.mpr ⟨finite, rfl, rfl⟩, ?_⟩
      rw [signedUnits_eq, Option.some.inj stands]
    · contradiction
  · rintro ⟨negative, units, pattern, rfl⟩
    obtain ⟨finite, rfl, rfl⟩ := read_eq_finite_iff.mp pattern
    rw [if_pos finite, signedUnits_eq]

theorem lt_infinity_of_value? {bits : Nat} {q : ℚ} (stands : f.value? bits = some q) :
    f.magnitude bits < f.infinity := by
  by_contra beyond
  rw [value?_eq formed, if_neg beyond] at stands
  contradiction

theorem abs_of_value? {bits : Nat} {q : ℚ} (stands : f.value? bits = some q) :
    |q| = f.units (f.magnitude bits) * f.unit := by
  have finite := lt_infinity_of_value? formed stands
  rw [value?_eq formed, if_pos finite] at stands
  rw [← Option.some.inj stands, mul_assoc, abs_signFactor_mul, abs_of_nonneg]
  exact mul_nonneg (Nat.cast_nonneg _) f.unit_pos.le

theorem value?_withSign (negative : Bool) {magnitude : Nat} (finite : magnitude < f.infinity) :
    f.value? (f.withSign negative magnitude) =
      some (signFactor negative * f.units magnitude * f.unit) := by
  have number := Nat.le_of_lt finite
  rw [value?_eq formed, magnitude_withSign formed.fraction negative number,
    isNegative_withSign formed.fraction negative number, if_pos finite]

/-- A pattern stands for an integer exactly if its units are a whole number of ones. -/
theorem value?_eq_intCast_iff {bits : Nat} {n : ℤ} : f.value? bits = some (n : ℚ) ↔
    ∃ negative whole, f.read bits = .finite negative (whole * 2 ^ f.unitExponent) ∧
      signedUnits negative whole = n := by
  rw [value?_eq_some_iff formed]
  constructor
  · rintro ⟨negative, units, pattern, number⟩
    have size : units = n.natAbs * 2 ^ f.unitExponent := by
      have sizes := congrArg abs number
      rw [signedUnits_eq, mul_assoc, abs_signFactor_mul, unit, mul_one_div,
        abs_of_nonneg (by positivity), div_eq_iff (by positivity)] at sizes
      apply Nat.cast_injective (R := ℚ)
      rw [sizes, Nat.cast_mul, Nat.cast_natAbs, Int.cast_abs, Nat.cast_pow, Nat.cast_ofNat]
    rw [size, signedUnits_mul_unit] at number
    exact ⟨negative, n.natAbs, size ▸ pattern, Int.cast_injective number⟩
  · rintro ⟨negative, whole, pattern, rfl⟩
    exact ⟨negative, _, pattern, f.signedUnits_mul_unit negative whole⟩

end Format

theorem single_wellFormed : single.WellFormed := ⟨by decide, by decide⟩

theorem double_wellFormed : double.WellFormed := ⟨by decide, by decide⟩

end HexCover.Binary
