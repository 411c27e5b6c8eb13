import HexCover.Binary
import Mathlib.Algebra.Order.Group.Nat
import Mathlib.Order.Monotone.Basic
import Mathlib.Tactic.Ring

/-! Magnitude patterns in blocks of fractions. A pattern is a number of whole blocks and a
significand, and its units are the significand shifted by the number of blocks, also where
the significand has just left its block. So consecutive patterns stand for increasing
numbers of units, and no two patterns for the same number. -/
namespace HexCover.Binary.Format

variable (f : Format)

theorem units_of_lt {fraction : Nat} (small : fraction < 2 ^ f.fractionBits) :
    f.units fraction = fraction := by
  simp [units, Nat.div_eq_of_lt small, Nat.mod_eq_of_lt small]

theorem units_succ_mul_add (exponent : Nat) {fraction : Nat}
    (small : fraction < 2 ^ f.fractionBits) :
    f.units ((exponent + 1) * 2 ^ f.fractionBits + fraction) =
      (2 ^ f.fractionBits + fraction) * 2 ^ exponent := by
  have block : 0 < 2 ^ f.fractionBits := Nat.two_pow_pos _
  have quotient : ((exponent + 1) * 2 ^ f.fractionBits + fraction) / 2 ^ f.fractionBits =
      exponent + 1 := by
    rw [Nat.add_comm, Nat.add_mul_div_right _ _ block, Nat.div_eq_of_lt small, Nat.zero_add]
  have rest : ((exponent + 1) * 2 ^ f.fractionBits + fraction) % 2 ^ f.fractionBits =
      fraction := by
    rw [Nat.add_comm, Nat.add_mul_mod_self_right, Nat.mod_eq_of_lt small]
  simp [units, quotient, rest]

/-- A significand may be as large as two blocks: what rounds up to the next power of two has
the first pattern of the next block. -/
theorem units_blocks {shift significand : Nat}
    (scaled : shift = 0 ∨ 2 ^ f.fractionBits ≤ significand)
    (small : significand ≤ 2 * 2 ^ f.fractionBits) :
    f.units (shift * 2 ^ f.fractionBits + significand) = significand * 2 ^ shift := by
  rcases Nat.lt_or_ge significand (2 ^ f.fractionBits) with sub | normal
  · obtain rfl : shift = 0 := scaled.resolve_right (Nat.not_le.mpr sub)
    rw [Nat.zero_mul, Nat.zero_add, units_of_lt f sub, Nat.pow_zero, Nat.mul_one]
  · obtain ⟨fraction, rfl⟩ := Nat.exists_eq_add_of_le normal
    rcases Nat.lt_or_ge fraction (2 ^ f.fractionBits) with inside | full
    · rw [← units_succ_mul_add f shift inside]
      congr 1
      ring
    · obtain rfl : fraction = 2 ^ f.fractionBits := by omega
      have next := units_succ_mul_add f (shift + 1) (Nat.two_pow_pos f.fractionBits)
      rw [Nat.add_zero, Nat.add_zero] at next
      calc f.units (shift * 2 ^ f.fractionBits + (2 ^ f.fractionBits + 2 ^ f.fractionBits))
          = f.units ((shift + 1 + 1) * 2 ^ f.fractionBits) := by congr 1; ring
        _ = (2 ^ f.fractionBits + 2 ^ f.fractionBits) * 2 ^ shift := by rw [next]; ring

/-- Every pattern has blocks and a significand. -/
theorem exists_blocks (magnitude : Nat) : ∃ shift significand,
    magnitude = shift * 2 ^ f.fractionBits + significand ∧
      significand < 2 * 2 ^ f.fractionBits ∧
      (shift = 0 ∨ 2 ^ f.fractionBits ≤ significand) := by
  have block : 0 < 2 ^ f.fractionBits := Nat.two_pow_pos _
  have whole := Nat.div_add_mod' magnitude (2 ^ f.fractionBits)
  have rest := Nat.mod_lt magnitude block
  cases blocks : magnitude / 2 ^ f.fractionBits with
  | zero =>
    rw [blocks] at whole
    exact ⟨0, magnitude, by simp, by omega, .inl rfl⟩
  | succ shift =>
    rw [blocks, Nat.succ_mul] at whole
    exact ⟨shift, 2 ^ f.fractionBits + magnitude % 2 ^ f.fractionBits, by omega, by omega,
      .inr (by omega)⟩

theorem units_lt_units_succ (magnitude : Nat) : f.units magnitude < f.units (magnitude + 1) := by
  obtain ⟨shift, significand, rfl, small, scaled⟩ := f.exists_blocks magnitude
  rw [units_blocks f scaled (Nat.le_of_lt small), Nat.add_assoc,
    units_blocks f (scaled.imp_right Nat.le_succ_of_le) small]
  exact Nat.mul_lt_mul_of_pos_right (Nat.lt_succ_self _) (Nat.two_pow_pos _)

theorem units_strictMono : StrictMono f.units :=
  strictMono_nat_of_lt_succ f.units_lt_units_succ

@[simp] theorem units_zero : f.units 0 = 0 := units_of_lt f (Nat.two_pow_pos _)

theorem units_injective : Function.Injective f.units := f.units_strictMono.injective

theorem units_eq_zero_iff {magnitude : Nat} : f.units magnitude = 0 ↔ magnitude = 0 :=
  f.units_injective.eq_iff' f.units_zero

/-- Twice a number of units has a pattern, and so has each of its multiples by powers of two. -/
theorem exists_units_mul_two_pow (magnitude exponent : Nat) :
    ∃ pattern, f.units pattern = f.units magnitude * 2 ^ exponent := by
  induction exponent with
  | zero => exact ⟨magnitude, (Nat.mul_one _).symm⟩
  | succ exponent ih =>
    obtain ⟨pattern, units⟩ := ih
    obtain ⟨shift, significand, rfl, small, scaled⟩ := f.exists_blocks pattern
    rw [units_blocks f scaled (Nat.le_of_lt small)] at units
    rw [Nat.pow_succ, ← Nat.mul_assoc, ← units]
    rcases Nat.lt_or_ge significand (2 ^ f.fractionBits) with sub | normal
    · obtain rfl : shift = 0 := scaled.resolve_right (Nat.not_le.mpr sub)
      refine ⟨0 * 2 ^ f.fractionBits + 2 * significand, ?_⟩
      rw [units_blocks f (.inl rfl) (Nat.mul_le_mul_left 2 (Nat.le_of_lt sub))]
      ring
    · refine ⟨(shift + 1) * 2 ^ f.fractionBits + significand, ?_⟩
      rw [units_blocks f (.inr normal) (Nat.le_of_lt small), Nat.pow_succ, Nat.mul_assoc]

end HexCover.Binary.Format
