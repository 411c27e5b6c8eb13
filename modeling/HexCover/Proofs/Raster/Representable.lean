import HexCover.Proofs.Binary.Conversion
import HexCover.Proofs.Raster.Keys
import HexCover.Raster.Nodata

/-! Values as exact numbers, and what other element types make of them. An integer type takes
a value exactly if it is one of its integers; that the fraction is looked for in the 64-bit
pattern makes no difference, since a binary number is converted to 64 bits without a change.
A binary type takes every value and rounds it. -/
namespace HexCover.Raster

open Binary

/-- The exact number, unless it is infinite or not a number. -/
def Number.rational? : Number → Option ℚ
  | .integer n => some n
  | .binary f bits => f.value? bits

/-- The exact number that a value stands for. -/
def Value.rational? (v : Value) : Option ℚ := v.number.rational?

section Fraction

variable {f : Format} {bits : Nat} (formed : f.WellFormed)
include formed

theorem hasFraction_eq_false_iff {q : ℚ} (stands : f.value? bits = some q) :
    (Number.binary f bits).hasFraction = false ↔ ∃ n : ℤ, q = n := by
  obtain ⟨negative, units, pattern, number⟩ := (Format.value?_eq_some_iff formed).mp stands
  simp only [Number.hasFraction, pattern, bne_eq_false_iff_eq]
  constructor
  · intro whole
    obtain ⟨whole, rfl⟩ := Nat.dvd_of_mod_eq_zero whole
    rw [Nat.mul_comm, Format.signedUnits_mul_unit] at number
    exact ⟨_, number.symm⟩
  · rintro ⟨n, rfl⟩
    obtain ⟨_, whole, pattern', _⟩ := (Format.value?_eq_intCast_iff formed).mp stands
    rw [pattern] at pattern'
    cases pattern'
    exact Nat.mul_mod_left _ _

theorem truncated?_of_value? {n : ℤ} (stands : f.value? bits = some (n : ℚ)) :
    (Number.binary f bits).truncated? = some n := by
  obtain ⟨negative, whole, pattern, number⟩ := (Format.value?_eq_intCast_iff formed).mp stands
  simp only [Number.truncated?, pattern, Nat.mul_div_cancel _ (Nat.two_pow_pos _), number]

theorem truncated?_of_value?_eq_none (nothing : f.value? bits = none) :
    (Number.binary f bits).truncated? = none := by
  cases pattern : f.read bits with
  | finite negative units =>
    have stands := (Format.value?_eq_some_iff formed).mpr ⟨_, _, pattern, rfl⟩
    rw [nothing] at stands
    contradiction
  | infinite negative => simp only [Number.truncated?, pattern]
  | nan => simp only [Number.truncated?, pattern]

end Fraction

namespace ElementType

variable {t : ElementType} {f : Format}

theorem two_pow_lt_overflow (h : t.encoding = .binary f) : 2 ^ 64 < f.overflow := by
  have wide : 64 < f.bias := by cases t <;> cases h <;> decide
  exact (pow_lt_pow_right₀ one_lt_two wide).trans_le f.two_pow_bias_le_overflow

theorem narrow_of_encoding (h : t.encoding = .binary f) :
    f.exponentBits ≤ double.exponentBits ∧ f.fractionBits ≤ double.fractionBits := by
  cases t <;> cases h <;> decide

end ElementType

namespace Pixel

variable {t : ElementType} (integer : t.isFloat = false)
include integer

theorem number_injective {p p' : Pixel t} (same : p.number = p'.number) : p = p' := by
  cases encoding : t.encoding with
  | signed =>
    simp only [number, encoding, Number.integer.injEq] at same
    exact BitVec.eq_of_toInt_eq same
  | unsigned =>
    simp only [number, encoding, Number.integer.injEq] at same
    exact BitVec.eq_of_toNat_eq (Int.ofNat_inj.mp same)
  | binary f => simp [ElementType.isFloat_iff.mpr ⟨f, encoding⟩] at integer

theorem number_ofInt {n : ℤ} (least : t.least ≤ n) (greatest : n ≤ t.greatest) :
    number (t := t) (BitVec.ofInt t.width n) = .integer n := by
  have wide : 0 < t.width := by cases t <;> decide
  cases encoding : t.encoding with
  | signed =>
    simp only [ElementType.least, ElementType.greatest, encoding, if_true] at least greatest
    rw [number, encoding, BitVec.toInt_ofInt_eq_self wide least (by omega)]
  | unsigned =>
    simp only [ElementType.least, ElementType.greatest, encoding, reduceCtorEq, if_false]
      at least greatest
    simp only [number, encoding, BitVec.toNat_ofInt]
    congr 1
    rw [Int.toNat_of_nonneg (Int.emod_nonneg _ (by positivity))]
    exact Int.emod_eq_of_lt least (by push_cast; omega)
  | binary f => simp [ElementType.isFloat_iff.mpr ⟨f, encoding⟩] at integer

end Pixel

theorem ElementType.ofInt?_eq_some_iff {t : ElementType} (integer : t.isFloat = false) {n : ℤ}
    {p : Pixel t} :
    t.ofInt? n = some p ↔ t.least ≤ n ∧ n ≤ t.greatest ∧ p.number = .integer n := by
  unfold ofInt?
  split
  · rename_i range
    rw [Option.some.injEq]
    constructor
    · rintro rfl
      exact ⟨range.1, range.2, Pixel.number_ofInt integer range.1 range.2⟩
    · rintro ⟨least, greatest, number⟩
      exact Pixel.number_injective integer
        ((Pixel.number_ofInt integer least greatest).trans number.symm)
  · rename_i range
    simp only [reduceCtorEq, false_iff]
    exact fun ⟨least, greatest, _⟩ => range ⟨least, greatest⟩

theorem nodataPixel_of_pixel? {t : ElementType} {v : Value} {p : Pixel t}
    (taken : v.pixel? t = some p) : nodataPixel t (some v) = .ok (some p) := by
  rw [nodataPixel, taken]

namespace Value

variable {t : ElementType} (v : Value)

theorem number_of_encoding {f : Format} (encoding : v.type.encoding = .binary f) :
    v.number = .binary f v.bits.toNat := by
  rw [number, Pixel.number, encoding]

theorem encoding_of_number {f : Format} {bits : Nat} (number : v.number = .binary f bits) :
    v.type.encoding = .binary f := by
  rw [Value.number, Pixel.number] at number
  split at number <;> simp_all

theorem exists_number (integer : v.type.isFloat = false) : ∃ n, v.number = .integer n := by
  cases number : v.number with
  | integer n => exact ⟨n, rfl⟩
  | binary f bits =>
    simp [ElementType.isFloat_iff.mpr ⟨f, v.encoding_of_number number⟩] at integer

theorem abs_number_le {n : ℤ} (number : v.number = .integer n) : |n| ≤ 2 ^ 64 := by
  have powers : (2 : ℤ) ^ v.type.width ≤ 2 ^ 64 :=
    pow_le_pow_right₀ one_le_two (by cases v.type <;> decide)
  have small : (v.bits.toNat : ℤ) < 2 ^ v.type.width := by exact_mod_cast v.bits.isLt
  rw [Value.number, Pixel.number] at number
  cases encoding : v.type.encoding with
  | signed =>
    simp only [encoding, Number.integer.injEq] at number
    have least := v.bits.le_two_mul_toInt
    have greatest := v.bits.two_mul_toInt_lt
    rw [abs_le]
    omega
  | unsigned =>
    simp only [encoding, Number.integer.injEq] at number
    rw [abs_le]
    omega
  | binary f => simp [encoding] at number

/-- The 64-bit pattern of a binary number stands for the same number. -/
theorem double_rational {q : ℚ} {f : Format} (encoding : v.type.encoding = .binary f)
    (stands : v.rational? = some q) : Binary.double.value? v.double = some q := by
  have formed := ElementType.formed_of_encoding encoding
  obtain ⟨exponent, fraction⟩ := ElementType.narrow_of_encoding encoding
  have number := v.number_of_encoding encoding
  rw [rational?, number] at stands
  obtain ⟨other, stands'⟩ :=
    Format.exists_value?_of_wider double_wellFormed formed exponent fraction stands
  rw [double, number]
  exact (Format.converted_convert double_wellFormed formed stands).exact double_wellFormed stands'

section Integer

variable (integer : t.isFloat = false)
include integer

theorem cast_of_integer : v.cast t = v.number.truncated?.bind t.ofInt? := by
  cases encoding : t.encoding with
  | signed => rw [cast, encoding]
  | unsigned => rw [cast, encoding]
  | binary f => simp [ElementType.isFloat_iff.mpr ⟨f, encoding⟩] at integer

theorem pixel?_of_number {n : ℤ} (number : v.number = .integer n) : v.pixel? t = t.ofInt? n := by
  have whole : v.type.isFloat = false := by
    rw [← Bool.not_eq_true, ElementType.isFloat_iff]
    rintro ⟨f, encoding⟩
    rw [v.number_of_encoding encoding] at number
    contradiction
  rw [pixel?, v.cast_of_integer integer, number, whole]
  simp [Number.truncated?]

section Binary

variable {f : Format} (encoding : v.type.encoding = .binary f)
include encoding

theorem pixel?_of_whole {n : ℤ} (stands : v.rational? = some (n : ℚ)) :
    v.pixel? t = t.ofInt? n := by
  have fraction := (hasFraction_eq_false_iff double_wellFormed
    (v.double_rational encoding stands)).mpr ⟨n, rfl⟩
  rw [rational?, v.number_of_encoding encoding] at stands
  have cut := truncated?_of_value? (ElementType.formed_of_encoding encoding) stands
  rw [pixel?, v.cast_of_integer integer, v.number_of_encoding encoding, cut, fraction]
  simp

theorem pixel?_of_fraction {q : ℚ} (stands : v.rational? = some q) (fraction : ∀ n : ℤ, q ≠ n) :
    v.pixel? t = none := by
  have whole := hasFraction_eq_false_iff double_wellFormed
    (v.double_rational encoding stands)
  have fractional : (Number.binary Binary.double v.double).hasFraction = true := by
    rw [← Bool.not_eq_false, whole]
    exact fun ⟨n, same⟩ => fraction n same
  have float := ElementType.isFloat_iff.mpr ⟨f, encoding⟩
  simp [pixel?, integer, float, fractional]

theorem pixel?_of_rational_eq_none (nothing : v.rational? = none) : v.pixel? t = none := by
  rw [rational?, v.number_of_encoding encoding] at nothing
  have cut := truncated?_of_value?_eq_none (ElementType.formed_of_encoding encoding) nothing
  rw [pixel?, v.cast_of_integer integer, v.number_of_encoding encoding, cut]
  rfl

end Binary

theorem pixel?_eq_some_iff {p : Pixel t} :
    v.pixel? t = some p ↔ ∃ n : ℤ, v.rational? = some (n : ℚ) ∧ t.ofInt? n = some p := by
  cases number : v.number with
  | integer n =>
    rw [v.pixel?_of_number integer number, rational?, number]
    simp [Number.rational?]
  | binary f bits =>
    have encoding := v.encoding_of_number number
    cases stands : v.rational? with
    | none => simp [v.pixel?_of_rational_eq_none integer encoding stands]
    | some q =>
      by_cases whole : ∃ n : ℤ, q = n
      · obtain ⟨n, rfl⟩ := whole
        simp [v.pixel?_of_whole integer encoding stands]
      · have fraction := not_exists.mp whole
        simp [v.pixel?_of_fraction integer encoding stands fraction, fraction]

/-- An integer type takes a value exactly if the value is an integer in the range of the type,
and then the pixel is that integer. All other values are refused: fractions, integers out of
the range, infinities and what is not a number. -/
theorem pixel?_exact :
    (∀ p : Pixel t, v.pixel? t = some p ↔ ∃ n : ℤ,
      v.rational? = some (n : ℚ) ∧ t.least ≤ n ∧ n ≤ t.greatest ∧ p.number = .integer n) ∧
    (v.pixel? t = none ↔
      ∀ n : ℤ, v.rational? = some (n : ℚ) → n < t.least ∨ t.greatest < n) := by
  constructor
  · intro p
    rw [v.pixel?_eq_some_iff integer]
    simp only [ElementType.ofInt?_eq_some_iff integer]
  · simp only [Option.eq_none_iff_forall_ne_some, ne_eq, v.pixel?_eq_some_iff integer,
      not_exists, not_and]
    constructor
    · intro refused n stands
      by_contra range
      simp only [not_or, Int.not_lt] at range
      exact refused _ n stands (if_pos range)
    · intro out p n stands taken
      obtain ⟨least, greatest, _⟩ := (ElementType.ofInt?_eq_some_iff integer).mp taken
      have := out n stands
      omega

end Integer

/-- Two to the 63 as a 64-bit number is one above the range of `int64`. -/
theorem pixel?_exact_two_pow_63 :
    let v : Value := ⟨.float64, 0x43e0000000000000⟩
    ElementType.int64.isFloat = false ∧ v.pixel? .int64 = none ∧
      ElementType.uint64.isFloat = false ∧ v.pixel? .uint64 = some 0x8000000000000000 := by
  intro v
  have stands : v.rational? = some ((2 ^ 63 : ℤ) : ℚ) :=
    (Format.value?_eq_intCast_iff double_wellFormed).mpr
      ⟨false, 2 ^ 63, by decide +kernel, by decide +kernel⟩
  refine ⟨rfl, (v.pixel?_exact rfl).2.mpr fun n same => .inr ?_, rfl,
    ((v.pixel?_exact rfl).1 _).mpr ⟨2 ^ 63, stands, by decide, by decide, by decide⟩⟩
  obtain rfl : (2 ^ 63 : ℤ) = n := Int.cast_injective (Option.some.inj (stands.symm.trans same))
  decide

section Rounded

variable {f : Format} (encoding : t.encoding = .binary f)
include encoding

theorem number_nearest_lt : v.number.nearest f < 2 ^ t.width := by
  obtain ⟨fraction, full⟩ := ElementType.format_bounds encoding
  rw [← full]
  cases number : v.number with
  | integer n => exact Format.withSign_lt fraction _ (f.nearest_le_infinity _ _)
  | binary source bits =>
    have encoding' := v.encoding_of_number number
    obtain ⟨rfl⟩ := (Number.binary.inj (number.symm.trans (v.number_of_encoding encoding'))).2
    have small := v.bits.isLt
    rw [← (ElementType.format_bounds encoding').2] at small
    exact Format.convert_lt (ElementType.formed_of_encoding encoding) small

/-- A binary type takes every value. -/
theorem pixel?_binary : ∃ p : Pixel t, v.pixel? t = some p ∧ p.toNat = v.number.nearest f := by
  have float := ElementType.isFloat_iff.mpr ⟨f, encoding⟩
  refine ⟨.ofPattern t (v.number.nearest f), ?_, ?_⟩
  · rw [pixel?, cast, encoding, float]
    rfl
  · rw [Pixel.ofPattern, BitVec.toNat_ofNat, Nat.mod_eq_of_lt (v.number_nearest_lt encoding)]

theorem converted_nearest {q : ℚ} (stands : v.rational? = some q) :
    f.Converted q (v.number.nearest f) := by
  have formed := ElementType.formed_of_encoding encoding
  cases number : v.number with
  | integer n =>
    rw [rational?, number, Number.rational?, Option.some.injEq] at stands
    exact stands ▸ Format.converted_ofInt formed n
  | binary source bits =>
    have formed' := ElementType.formed_of_encoding (v.encoding_of_number number)
    rw [rational?, number] at stands
    exact Format.converted_convert formed formed' stands

theorem isFinite_nearest_of_eq_none (nothing : v.rational? = none) :
    f.isFinite (v.number.nearest f) = false := by
  have formed := ElementType.formed_of_encoding encoding
  cases number : v.number with
  | integer n => simp [rational?, number, Number.rational?] at nothing
  | binary source bits =>
    have formed' := ElementType.formed_of_encoding (v.encoding_of_number number)
    rw [rational?, number] at nothing
    exact Format.isFinite_convert_of_eq_none formed formed' nothing

theorem abs_lt_overflow {n : ℤ} (number : v.number = .integer n) : |(n : ℚ)| < f.overflow := by
  have range : |(n : ℚ)| ≤ 2 ^ 64 := by exact_mod_cast v.abs_number_le number
  exact range.trans_lt (ElementType.two_pow_lt_overflow encoding)

/-- A binary type takes every value, so a value that stands for missing data is never refused.
The pixel is the nearest one. It has the number of the value exactly if the type has that
number, and from the overflow of the type on it is infinite; integers stay below. -/
theorem pixel?_rounded : ∃ p : Pixel t, v.pixel? t = some p ∧
    nodataPixel t (some v) = .ok (some p) ∧
    (f.isFinite p.toNat = true ↔ ∃ q, v.rational? = some q ∧ |q| < f.overflow) ∧
    (v.type.isFloat = false → f.isFinite p.toNat = true) ∧
    ∀ q, v.rational? = some q → f.Converted q p.toNat ∧
      (f.value? p.toNat = some q ↔ ∃ bits, f.value? bits = some q) := by
  have formed := ElementType.formed_of_encoding encoding
  obtain ⟨p, taken, pattern⟩ := v.pixel?_binary encoding
  have finite : f.isFinite p.toNat = true ↔ ∃ q, v.rational? = some q ∧ |q| < f.overflow := by
    rw [pattern]
    cases stands : v.rational? with
    | none => simp [v.isFinite_nearest_of_eq_none encoding stands]
    | some q => simp [(v.converted_nearest encoding stands).isFinite_iff formed]
  refine ⟨p, taken, nodataPixel_of_pixel? taken, finite, fun integer => ?_, fun q stands => ?_⟩
  · obtain ⟨n, number⟩ := v.exists_number integer
    have stands : v.rational? = some (n : ℚ) := by rw [rational?, number, Number.rational?]
    exact finite.mpr ⟨n, stands, v.abs_lt_overflow encoding number⟩
  · have converted := v.converted_nearest encoding stands
    rw [← pattern] at converted
    exact ⟨converted, fun stands => ⟨_, stands⟩, fun ⟨_, stands⟩ => converted.exact formed stands⟩

end Rounded

/-- Two to the 53 and one is no 32-bit number, and is taken all the same. -/
theorem pixel?_rounded_two_pow_53_succ :
    ElementType.float32.encoding = .binary single ∧
      ∃ p : Pixel .float32, (⟨.uint64, 0x20000000000001⟩ : Value).pixel? .float32 = some p ∧
        single.isFinite p.toNat = true ∧ single.Converted (2 ^ 53 + 1 : ℤ) p.toNat := by
  let v : Value := ⟨.uint64, 0x20000000000001⟩
  have encoding : ElementType.float32.encoding = .binary single := rfl
  have stands : v.rational? = some ((2 ^ 53 + 1 : ℤ) : ℚ) := rfl
  obtain ⟨p, taken, _, _, finite, each⟩ := v.pixel?_rounded encoding
  exact ⟨encoding, p, taken, finite rfl, (each _ stands).1⟩

/-- Two to the 128 is beyond the finite 32-bit numbers. As a value that stands for missing data
it is not refused: it becomes infinity, and infinite pixels match it. Two to the 53 and one
becomes two to the 53 among the 64-bit numbers, which is another integer. -/
theorem nodataPixel_two_pow_128 :
    let large : Value := ⟨.float64, 0x47f0000000000000⟩
    let odd : Value := ⟨.uint64, 0x20000000000001⟩
    large.rational? = some ((2 ^ 128 : ℤ) : ℚ) ∧
      nodataPixel .float32 (some large) = .ok (some 0x7f800000) ∧
      single.isFinite 0x7f800000 = false ∧
      Pixel.isNodata (t := .float32) 0x7f800000 0x7f800000 ⟨0⟩ = true ∧
      odd.rational? = some ((2 ^ 53 + 1 : ℤ) : ℚ) ∧
      nodataPixel .float64 (some odd) = .ok (some 0x4340000000000000) ∧
      Binary.double.value? 0x4340000000000000 = some ((2 ^ 53 : ℤ) : ℚ) := by
  intro large odd
  have stands : large.rational? = some ((2 ^ 128 : ℤ) : ℚ) :=
    (Format.value?_eq_intCast_iff double_wellFormed).mpr ⟨false, 2 ^ 128, by decide +kernel, rfl⟩
  have infinite : large.pixel? .float32 = some 0x7f800000 := by decide +kernel
  have other : odd.pixel? .float64 = some 0x4340000000000000 := by decide +kernel
  have even : Binary.double.value? 0x4340000000000000 = some ((2 ^ 53 : ℤ) : ℚ) :=
    (Format.value?_eq_intCast_iff double_wellFormed).mpr ⟨false, 2 ^ 53, by decide +kernel, rfl⟩
  exact ⟨stands, nodataPixel_of_pixel? infinite, by decide, by decide +kernel, rfl,
    nodataPixel_of_pixel? other, even⟩

end Value

end HexCover.Raster
