import HexCover.Proofs.Binary.Rounding
import HexCover.Proofs.Binary.Value

/-! Conversions as rounding of exact numbers. An integer or a number of another format is
converted to a pattern of the nearest number, as long as its magnitude is below the middle
between the largest number and the one that would follow it; from there on the result is
infinite. What a format can represent is converted without a change. -/
namespace HexCover.Binary

theorem abs_signFactor_mul_sub (negative : Bool) (x y : ℚ) :
    |signFactor negative * x - signFactor negative * y| = |x - y| := by
  rw [← mul_sub, abs_signFactor_mul]

/-- Signs can only add to the distance of magnitudes. -/
theorem abs_abs_sub_le (negative : Bool) (y : ℚ) {r : ℚ} (quotient : 0 ≤ r) :
    |(|y| - r)| ≤ |y - signFactor negative * r| := by
  have triangle := abs_abs_sub_abs_le y (signFactor negative * r)
  rwa [abs_signFactor_mul, abs_of_nonneg quotient] at triangle

/-- What is as near to a number as zero has its sign. -/
theorem eq_signFactor_mul_abs {negative : Bool} {y r : ℚ}
    (least : |y - signFactor negative * r| ≤ r) : y = signFactor negative * |y| := by
  obtain ⟨below, above⟩ := abs_le.mp least
  cases negative with
  | false =>
    simp only [signFactor, Bool.false_eq_true, if_false, one_mul] at below above ⊢
    exact (abs_of_nonneg (by linarith)).symm
  | true =>
    simp only [signFactor, if_true] at below above ⊢
    rw [abs_of_nonpos (by linarith)]
    ring

namespace Format

/-- The magnitude from which on numbers are rounded to infinity. -/
def overflow (f : Format) : ℚ := (2 - 1 / 2 ^ (f.fractionBits + 1)) * 2 ^ f.bias

/-- A pattern of a number that is as near to `q` as that of any other pattern, and an even
pattern if another number is equally near. -/
def NearestTo (f : Format) (q : ℚ) (bits : Nat) : Prop :=
  ∃ x, f.value? bits = some x ∧ ∀ other y, f.value? other = some y →
    |x - q| ≤ |y - q| ∧ (|x - q| = |y - q| → y = x ∨ bits % 2 = 0)

/-- A pattern for a number with the magnitude at which it overflows kept apart. -/
structure Converted (f : Format) (q : ℚ) (bits : Nat) : Prop where
  near : |q| < f.overflow → f.NearestTo q bits
  beyond : f.overflow ≤ |q| → f.read bits = .infinite (q < 0)

theorem one_le_overflow_significand (f : Format) :
    (1 : ℚ) ≤ 2 - 1 / 2 ^ (f.fractionBits + 1) := by
  have half : 1 / 2 ^ (f.fractionBits + 1) ≤ (1 : ℚ) := by
    rw [div_le_one (by positivity)]
    exact one_le_pow₀ one_le_two
  linarith

theorem two_pow_bias_le_overflow (f : Format) : 2 ^ f.bias ≤ f.overflow :=
  le_mul_of_one_le_left (by positivity) f.one_le_overflow_significand

theorem overflow_pos (f : Format) : 0 < f.overflow :=
  lt_of_lt_of_le (by positivity) f.two_pow_bias_le_overflow

section Wider

variable {source f : Format} (exponent : source.exponentBits ≤ f.exponentBits)
  (fraction : source.fractionBits ≤ f.fractionBits)
include exponent fraction

theorem unitExponent_le : source.unitExponent ≤ f.unitExponent := by
  have powers : 2 ^ (source.exponentBits - 1) ≤ 2 ^ (f.exponentBits - 1) :=
    Nat.pow_le_pow_right Nat.two_pos (Nat.sub_le_sub_right exponent 1)
  unfold unitExponent
  omega

theorem overflow_le : source.overflow ≤ f.overflow := by
  have powers : 2 ^ (source.exponentBits - 1) ≤ 2 ^ (f.exponentBits - 1) :=
    Nat.pow_le_pow_right Nat.two_pos (Nat.sub_le_sub_right exponent 1)
  have significand := f.one_le_overflow_significand
  have step : 1 / 2 ^ (f.fractionBits + 1) ≤ (1 : ℚ) / 2 ^ (source.fractionBits + 1) :=
    one_div_le_one_div_of_le (by positivity)
      (pow_le_pow_right₀ one_le_two (Nat.add_le_add_right fraction 1))
  have scale : (2 : ℚ) ^ source.bias ≤ 2 ^ f.bias :=
    pow_le_pow_right₀ one_le_two (Nat.sub_le_sub_right powers 1)
  exact mul_le_mul (by linarith) scale (by positivity) (by linarith)

end Wider

theorem nearest_le_infinity (f : Format) (num den : Nat) : f.nearest num den ≤ f.infinity :=
  Nat.min_le_left _ _

variable {f : Format} (formed : f.WellFormed)
include formed

theorem infinity_eq : f.infinity = (2 * f.bias + 1) * 2 ^ f.fractionBits := by
  rw [infinity, two_pow_exponentBits formed, Nat.add_sub_assoc (by decide)]

theorem even_infinity : f.infinity % 2 = 0 := by
  rw [infinity_eq formed]
  exact Nat.mod_eq_zero_of_dvd
    (Dvd.dvd.mul_left (dvd_pow_self 2 (Nat.ne_of_gt formed.fraction)) _)

theorem unit_mul_eq : f.unit * (2 ^ f.bias * 2 ^ f.fractionBits) = 2 := by
  have exponents : f.bias + f.fractionBits = f.unitExponent + 1 := (unitExponent_succ formed).symm
  rw [unit, ← pow_add, exponents, pow_succ]
  field_simp

/-- The largest number and the one that would follow it lie around the overflow. -/
theorem exists_last : ∃ last, f.infinity = last + 1 ∧
    ((f.units last : ℚ) + f.units (last + 1)) * f.unit = 2 * f.overflow := by
  have block : 0 < 2 ^ f.fractionBits := Nat.two_pow_pos _
  obtain ⟨steps, bias⟩ := Nat.exists_eq_add_of_lt (bias_pos formed)
  rw [Nat.zero_add] at bias
  refine ⟨(2 * steps + 1 + 1) * 2 ^ f.fractionBits + (2 ^ f.fractionBits - 1), ?_, ?_⟩
  · rw [infinity_eq formed, bias, Nat.add_assoc _ _ 1, Nat.sub_add_cancel block]
    ring
  · have last := f.units_succ_mul_add (2 * steps + 1) (Nat.sub_lt block Nat.one_pos)
    have next := f.units_succ_mul_add (2 * steps + 1 + 1) block
    have follows : (2 * steps + 1 + 1) * 2 ^ f.fractionBits + (2 ^ f.fractionBits - 1) + 1 =
        (2 * steps + 1 + 1 + 1) * 2 ^ f.fractionBits + 0 := by
      rw [Nat.add_assoc _ _ 1, Nat.sub_add_cancel block]
      ring
    have unit : f.unit = 2 / (2 ^ (steps + 1) * 2 ^ f.fractionBits) := by
      rw [eq_div_iff (by positivity), ← bias, unit_mul_eq formed]
    rw [follows, last, next, unit, overflow, bias]
    push_cast [Nat.cast_sub block]
    field_simp
    ring

theorem lt_infinity_iff (magnitude : Nat) :
    magnitude < f.infinity ↔ f.units magnitude * f.unit < f.overflow := by
  obtain ⟨last, infinity, middle⟩ := exists_last formed
  have next : (f.units last : ℚ) < f.units (last + 1) :=
    Nat.cast_lt.mpr (f.units_lt_units_succ last)
  rw [infinity, ← mul_lt_mul_iff_right₀ (two_pos (α := ℚ)), ← middle, ← mul_assoc,
    mul_lt_mul_iff_left₀ f.unit_pos]
  constructor
  · intro below
    have least : (f.units magnitude : ℚ) ≤ f.units last :=
      Nat.cast_le.mpr (f.units_strictMono.monotone (Nat.le_of_lt_succ below))
    linarith
  · intro below
    by_contra beyond
    have greatest : (f.units (last + 1) : ℚ) ≤ f.units magnitude :=
      Nat.cast_le.mpr (f.units_strictMono.monotone (Nat.le_of_not_lt beyond))
    linarith

theorem lt_overflow_of_value? {bits : Nat} {q : ℚ} (stands : f.value? bits = some q) :
    |q| < f.overflow := by
  rw [abs_of_value? formed stands]
  exact (lt_infinity_iff formed _).mp (lt_infinity_of_value? formed stands)

section Signed

variable (negative : Bool) (num : Nat) {den : Nat} (positive : 0 < den)
include positive

theorem unbounded_lt_infinity_iff :
    f.unbounded num den < f.infinity ↔ num / den * f.unit < f.overflow := by
  obtain ⟨last, infinity, middle⟩ := exists_last formed
  have even := even_infinity formed
  rw [infinity] at even ⊢
  rw [(rounds_unbounded formed.fraction num positive).lt_iff even,
    ← mul_lt_mul_iff_left₀ f.unit_pos, middle, mul_assoc, mul_lt_mul_iff_right₀ two_pos]

theorem nearest_of_lt (below : num / den * f.unit < f.overflow) :
    f.nearest num den = f.unbounded num den ∧ f.unbounded num den < f.infinity := by
  have small := (unbounded_lt_infinity_iff formed num positive).mpr below
  exact ⟨by rw [nearest_eq, Nat.min_eq_right (Nat.le_of_lt small)], small⟩

theorem nearest_of_le (beyond : f.overflow ≤ num / den * f.unit) :
    f.nearest num den = f.infinity := by
  have large := mt (unbounded_lt_infinity_iff formed num positive).mp (not_lt.mpr beyond)
  rw [nearest_eq, Nat.min_eq_left (Nat.le_of_not_lt large)]

theorem nearestTo_withSign (below : num / den * f.unit < f.overflow) :
    f.NearestTo (signFactor negative * (num / den * f.unit))
      (f.withSign negative (f.nearest num den)) := by
  obtain ⟨nearest, small⟩ := nearest_of_lt formed num positive below
  have rounds := rounds_unbounded formed.fraction num positive
  rw [nearest]
  generalize f.unbounded num den = p at *
  have quotient : 0 ≤ num / den * f.unit := mul_nonneg (by positivity) f.unit_pos.le
  refine ⟨_, value?_withSign formed negative small, fun other y stands => ?_⟩
  have size := abs_of_value? formed stands
  obtain ⟨nearer, even⟩ := rounds.scaled f.unit_pos (f.magnitude other)
  have apart := abs_abs_sub_le negative y quotient
  rw [← size] at nearer even
  rw [mul_assoc, abs_signFactor_mul_sub]
  refine ⟨nearer.trans apart, fun tie => ?_⟩
  rcases even (le_antisymm nearer (apart.trans tie.ge)) with same | even
  · left
    have zero := (rounds.scaled f.unit_pos 0).1
    rw [units_zero, Nat.cast_zero, zero_mul, zero_sub, abs_neg, abs_of_nonneg quotient] at zero
    rw [eq_signFactor_mul_abs (tie.symm.trans_le zero), size, same]
  · exact .inr (even_withSign formed.fraction negative even)

theorem converted_withSign : f.Converted (signFactor negative * (num / den * f.unit))
    (f.withSign negative (f.nearest num den)) := by
  have size : |signFactor negative * (num / den * f.unit)| = num / den * f.unit := by
    rw [abs_signFactor_mul, abs_of_nonneg (mul_nonneg (by positivity) f.unit_pos.le)]
  refine ⟨fun below => ?_, fun beyond => ?_⟩ <;> rw [size] at *
  · exact nearestTo_withSign formed negative num positive below
  · have sign : signFactor negative * (num / den * f.unit) < 0 ↔ negative = true := by
      have large := (overflow_pos f).trans_le beyond
      cases negative
      · simpa [signFactor] using large.le
      · simpa [signFactor] using large
    rw [nearest_of_le formed num positive beyond, read_withSign formed.fraction negative le_rfl,
      if_pos rfl, decide_eq_decide.mpr sign, Bool.decide_coe]

end Signed

theorem Converted.of_value? {bits : Nat} {q : ℚ} (stands : f.value? bits = some q) :
    f.Converted q bits where
  near _ := by
    refine ⟨q, stands, fun other y _ => ?_⟩
    rw [sub_self, abs_zero]
    exact ⟨abs_nonneg _, fun tie => .inl (sub_eq_zero.mp (abs_eq_zero.mp tie.symm))⟩
  beyond large := absurd (lt_overflow_of_value? formed stands) (not_lt.mpr large)

/-- A number of the format is converted to a pattern of that number. -/
theorem Converted.exact {bits other : Nat} {q : ℚ} (converted : f.Converted q bits)
    (stands : f.value? other = some q) : f.value? bits = some q := by
  obtain ⟨x, value, nearest⟩ := converted.near (lt_overflow_of_value? formed stands)
  have distance := (nearest other q stands).1
  rw [sub_self, abs_zero] at distance
  rw [value, sub_eq_zero.mp (abs_eq_zero.mp (le_antisymm distance (abs_nonneg _)))]

theorem Converted.isFinite_iff {bits : Nat} {q : ℚ} (converted : f.Converted q bits) :
    f.isFinite bits = true ↔ |q| < f.overflow := by
  rcases lt_or_ge |q| f.overflow with below | beyond
  · obtain ⟨x, value, _⟩ := converted.near below
    exact iff_of_true (decide_eq_true (lt_infinity_of_value? formed value)) below
  · have infinite := converted.beyond beyond
    refine iff_of_false (fun finite => ?_) (not_lt.mpr beyond)
    rw [read_eq_finite_iff.mpr ⟨of_decide_eq_true finite, rfl, rfl⟩] at infinite
    contradiction

/-- An integer is converted to the nearest pattern. -/
theorem converted_ofInt (n : ℤ) : f.Converted n (f.ofInt n) := by
  have number : signFactor (n < 0) * (((n.natAbs * 2 ^ f.unitExponent : Nat) : ℚ) / (1 : Nat) *
      f.unit) = n := by
    have power : (2 : ℚ) ^ f.unitExponent ≠ 0 := by positivity
    have sign : signFactor (n < 0) * n.natAbs = n := by
      have units : signedUnits (n < 0) n.natAbs = n := by
        by_cases negative : n < 0 <;> simp only [signedUnits, negative, decide_true,
          decide_false, if_true, Bool.false_eq_true, if_false] <;> omega
      rw [← signedUnits_eq, units]
    rw [unit]
    push_cast
    field_simp
    exact sign
  have converted := converted_withSign formed (n < 0) (n.natAbs * 2 ^ f.unitExponent) Nat.one_pos
  rwa [number] at converted

/-- A number of another format is converted to the nearest pattern. -/
theorem converted_convert {source : Format} (formed' : source.WellFormed) {bits : Nat} {q : ℚ}
    (stands : source.value? bits = some q) : f.Converted q (f.convert source bits) := by
  by_cases same : f = source
  · subst same
    rw [convert, if_pos rfl]
    exact .of_value? formed stands
  · obtain ⟨negative, units, pattern, number⟩ := (value?_eq_some_iff formed').mp stands
    have scaled : signFactor negative * (((units * 2 ^ f.unitExponent : Nat) : ℚ) /
        (2 ^ source.unitExponent : Nat) * f.unit) = q := by
      rw [← number, signedUnits_eq, unit, unit]
      push_cast
      field_simp
    have converted := converted_withSign formed negative (units * 2 ^ f.unitExponent)
      (Nat.two_pow_pos source.unitExponent)
    rw [scaled] at converted
    simpa only [convert, if_neg same, pattern] using converted

/-- What is infinite or not a number stays so. -/
theorem isFinite_convert_of_eq_none {source : Format} {bits : Nat}
    (formed' : source.WellFormed) (nothing : source.value? bits = none) :
    f.isFinite (f.convert source bits) = false := by
  obtain ⟨above, below⟩ := quietNaN_bounds formed.fraction
  have large : ¬ source.magnitude bits < source.infinity := fun finite => by
    rw [value?_eq formed', if_pos finite] at nothing
    contradiction
  apply decide_eq_false
  by_cases same : f = source
  · rwa [convert, if_pos same, same]
  · simp only [convert, if_neg same]
    cases pattern : source.read bits with
    | nan =>
      rw [magnitude, Nat.mod_eq_of_lt below]
      exact Nat.lt_asymm above
    | infinite negative =>
      rw [magnitude_withSign formed.fraction negative le_rfl]
      exact Nat.lt_irrefl _
    | finite negative units => exact absurd (read_eq_finite_iff.mp pattern).1 large

theorem convert_lt {source : Format} {bits : Nat} (small : bits < 2 * source.signWeight) :
    f.convert source bits < 2 * f.signWeight := by
  obtain ⟨above, below⟩ := quietNaN_bounds formed.fraction
  unfold convert
  split
  · rename_i same
    rwa [same]
  · split
    · omega
    · exact withSign_lt formed.fraction _ le_rfl
    · exact withSign_lt formed.fraction _ (f.nearest_le_infinity _ _)

section Wider

variable {source : Format} (formed' : source.WellFormed)
  (exponent : source.exponentBits ≤ f.exponentBits)
  (fraction : source.fractionBits ≤ f.fractionBits)
include formed' exponent fraction

/-- A wider format has all numbers of a format. -/
theorem exists_value?_of_wider {bits : Nat} {q : ℚ} (stands : source.value? bits = some q) :
    ∃ other, f.value? other = some q := by
  obtain ⟨negative, units, pattern, number⟩ := (value?_eq_some_iff formed').mp stands
  obtain ⟨finite, -, rfl⟩ := read_eq_finite_iff.mp pattern
  obtain ⟨shift, significand, blocks, small, scaled⟩ := source.exists_blocks (source.magnitude bits)
  obtain ⟨finer, exponents⟩ := Nat.exists_eq_add_of_le (unitExponent_le exponent fraction)
  -- the significand fits into the wider fraction, and the units are finer by a power of two
  have fits : f.units significand = significand := by
    have wide : 2 ^ source.fractionBits ≤ 2 ^ f.fractionBits :=
      Nat.pow_le_pow_right Nat.two_pos fraction
    have small : significand ≤ 2 * 2 ^ f.fractionBits := by omega
    have same := f.units_blocks (.inl rfl) small
    rwa [Nat.zero_mul, Nat.zero_add, Nat.pow_zero, Nat.mul_one] at same
  obtain ⟨magnitude, multiple⟩ := f.exists_units_mul_two_pow significand (shift + finer)
  have same : f.units magnitude * f.unit = source.units (source.magnitude bits) * source.unit := by
    rw [multiple, fits, blocks, units_blocks source scaled (Nat.le_of_lt small), unit, unit,
      exponents]
    push_cast [pow_add]
    field_simp
  have number' := (lt_infinity_iff formed' _).mp finite
  refine ⟨f.withSign negative magnitude, ?_⟩
  rw [value?_withSign formed negative, ← number, signedUnits_eq, mul_assoc, same, mul_assoc]
  rw [lt_infinity_iff formed, same]
  exact number'.trans_le (overflow_le exponent fraction)

end Wider

end Format

end HexCover.Binary
