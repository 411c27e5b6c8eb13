import HexCover.Double
import HexCover.Proofs.Binary.Units

/-! Equality of binary numbers on their bit patterns. Numbers are equal exactly if they have
one rank. For doubles that is one pattern, or two zeros; what stands for no number has all
bits of its exponent set and some bit of its fraction. -/
namespace HexCover

namespace Binary

theorem signedUnits_inj {s t : Bool} {m n : Nat} :
    signedUnits s m = signedUnits t n ↔ m = n ∧ (s = t ∨ m = 0) := by
  cases s <;> cases t <;> simp [signedUnits] <;> omega

namespace Format

variable {f : Format} {a b : Nat}

theorem rank_of_isNaN (nan : f.isNaN a = true) : f.rank a = f.infinity + 1 :=
  if_pos (of_decide_eq_true nan)

theorem rank_of_not_isNaN (number : f.isNaN a = false) :
    f.rank a = signedUnits (f.isNegative a) (f.magnitude a) :=
  if_neg (of_decide_eq_false number)

theorem rank_eq_top_iff : f.rank a = f.infinity + 1 ↔ f.isNaN a = true := by
  refine ⟨fun top => ?_, rank_of_isNaN⟩
  by_contra number
  have below := of_decide_eq_false (Bool.not_eq_true _ ▸ number)
  rw [rank_of_not_isNaN (Bool.not_eq_true _ ▸ number), signedUnits] at top
  split at top <;> omega

theorem rank_eq_zero_iff : f.rank a = 0 ↔ f.magnitude a = 0 := by
  unfold rank
  dsimp only
  split
  · omega
  · split <;> omega

theorem read_of_isNaN (nan : f.isNaN a = true) : f.read a = .nan := if_pos (of_decide_eq_true nan)

theorem numbers_of_equal (same : f.equal a b = true) : f.isNaN a = false ∧ f.isNaN b = false := by
  constructor
  · cases nan : f.isNaN a with
    | false => rfl
    | true => simp [equal, read_of_isNaN nan] at same
  · cases nan : f.isNaN b with
    | false => rfl
    | true =>
      rw [equal, read_of_isNaN nan] at same
      split at same <;> contradiction

theorem read_of_not_isNaN (number : f.isNaN a = false) : f.read a =
    if f.magnitude a = f.infinity then .infinite (f.isNegative a)
    else .finite (f.isNegative a) (f.units (f.magnitude a)) :=
  if_neg (of_decide_eq_false number)

/-- Numbers are equal exactly if they have one rank, and what is not a number has none of
their ranks. -/
theorem equal_iff_rank_eq (proper : 0 < f.infinity)
    (number : f.isNaN a = false ∨ f.isNaN b = false) :
    f.equal a b = true ↔ f.rank a = f.rank b := by
  have apart : f.isNaN a ≠ f.isNaN b → (f.equal a b = true ↔ f.rank a = f.rank b) := by
    intro other
    refine iff_of_false (fun same => ?_) fun same => ?_
    · obtain ⟨first, second⟩ := numbers_of_equal same
      exact other (first.trans second.symm)
    · exact other (Bool.eq_iff_iff.mpr (by rw [← rank_eq_top_iff, ← rank_eq_top_iff, same]))
  cases first : f.isNaN a with
  | true => exact apart (by simp_all)
  | false =>
    cases second : f.isNaN b with
    | true => exact apart (by simp_all)
    | false =>
      rw [rank_of_not_isNaN first, rank_of_not_isNaN second, signedUnits_inj, equal,
        read_of_not_isNaN first, read_of_not_isNaN second]
      by_cases left : f.magnitude a = f.infinity <;> by_cases right : f.magnitude b = f.infinity
      · simp [left, right, proper.ne']
      · simp [left, right, Ne.symm right]
      · simp [left, right]
      · simp [left, right, signedUnits_inj, f.units_injective.eq_iff, f.units_eq_zero_iff]

end Format

end Binary

namespace Double

/-- The exponent has all its bits set and the fraction has some bit set. -/
def NoNumber (x : Double) : Prop :=
  x.bits.toNat / 2 ^ 52 % 2 ^ 11 = 2 ^ 11 - 1 ∧ x.bits.toNat % 2 ^ 52 ≠ 0

/-- Two numbers with one pattern, or zeros of any signs. -/
def SameNumber (x y : Double) : Prop :=
  (¬ x.NoNumber ∧ ¬ y.NoNumber) ∧
    (x = y ∨ x.bits.toNat % 2 ^ 63 = 0 ∧ y.bits.toNat % 2 ^ 63 = 0)

instance (x : Double) : Decidable x.NoNumber := inferInstanceAs (Decidable (_ ∧ _))

instance (x y : Double) : Decidable (x.SameNumber y) := inferInstanceAs (Decidable (_ ∧ _))

variable {x y : Double}

theorem isNaN_iff : x.isNaN = true ↔ x.NoNumber := by
  simp only [isNaN, Binary.Format.isNaN, NoNumber, decide_eq_true_eq]
  simp only [Binary.Format.infinity, Binary.Format.magnitude, Binary.Format.signWeight,
    Binary.double]
  omega

theorem isNaN_eq_false_iff : x.isNaN = false ↔ ¬ x.NoNumber := by
  rw [← isNaN_iff, Bool.not_eq_true]

theorem eq_iff_toNat_bits : x = y ↔ x.bits.toNat = y.bits.toNat := by
  rw [BitVec.toNat_inj]
  exact ⟨congrArg bits, fun same => by cases x; cases y; exact congrArg mk same⟩

theorem same_iff : x.same y = true ↔ x.SameNumber y := by
  unfold SameNumber
  rw [← isNaN_eq_false_iff, ← isNaN_eq_false_iff]
  refine Iff.trans (and_iff_right_of_imp Binary.Format.numbers_of_equal).symm
    (and_congr_right fun numbers => ?_)
  rw [Binary.Format.equal_iff_rank_eq (by decide) (.inl numbers.1),
    Binary.Format.rank_of_not_isNaN numbers.1, Binary.Format.rank_of_not_isNaN numbers.2,
    Binary.signedUnits_inj, eq_iff_toNat_bits, Bool.eq_iff_iff]
  have first := x.bits.isLt
  have second := y.bits.isLt
  simp only [Binary.Format.isNegative, Binary.Format.magnitude, Binary.Format.signWeight,
    Binary.double, beq_iff_eq]
  omega

end Double

end HexCover
