import HexCover.Binary

/-! Decimal texts of binary numbers. The plain text is the shortest decimal that
reads back as the same number, the nearest of those, and a tie goes up; it is
written positionally whatever its size. The scientific text is the value rounded
to a fixed count of digits, ties to even. -/
namespace HexCover.Binary

/-- The number `digits * 10 ^ exponent`. -/
structure Decimal where
  digits : Nat
  exponent : Int
deriving DecidableEq, Repr

namespace Decimal

/-- The decimal digits of a natural number, highest first. -/
def digitChars (n : Nat) : List Char := Nat.toDigits 10 n

/-- The same number without trailing zeros in the digits. -/
def strip (d : Decimal) : Decimal :=
  if h : d.digits ≠ 0 ∧ d.digits % 10 = 0 then strip ⟨d.digits / 10, d.exponent + 1⟩ else d
termination_by d.digits
decreasing_by exact Nat.div_lt_self (Nat.pos_of_ne_zero h.1) (by decide)

/-- Write a decimal with all its places and no exponent. -/
def positional (d : Decimal) : List Char :=
  let digits := digitChars d.digits
  if 0 ≤ d.exponent then digits ++ List.replicate d.exponent.toNat '0'
  else
    let places := (-d.exponent).toNat
    if places < digits.length then
      digits.take (digits.length - places) ++ '.' :: digits.drop (digits.length - places)
    else '0' :: '.' :: List.replicate (places - digits.length) '0' ++ digits

end Decimal

namespace Format

/-- The exponent of the highest decimal digit of a positive number of units. -/
def leadingExponent (f : Format) (units : Nat) : Int :=
  let whole := units / 2 ^ f.unitExponent
  if whole = 0 then
    let reached (j : Nat) : Bool := 2 ^ f.unitExponent ≤ units * 10 ^ (j + 1)
    let zeros := ((List.range f.unitExponent).find? reached).getD 0
    Int.negSucc zeros
  else ((Decimal.digitChars whole).length : Int) - 1

/-- Whether a decimal reads back as the number of this magnitude pattern: it lies
between the midpoints to the neighbours, which count when the pattern is even. -/
def readsAs (f : Format) (magnitude : Nat) (d : Decimal) : Bool :=
  let below := f.units (magnitude - 1) + f.units magnitude
  let above := f.units magnitude + f.units (magnitude + 1)
  let num := d.digits * 10 ^ d.exponent.toNat * 2 ^ (f.unitExponent + 1)
  let den := 10 ^ (-d.exponent).toNat
  if magnitude % 2 = 0 then decide (below * den ≤ num ∧ num ≤ above * den)
  else decide (below * den < num ∧ num < above * den)

/-- The decimal with `count` digits that reads back as the pattern and is nearest
to it, if there is one. Only the two neighbours on the grid can be. -/
def withDigits? (f : Format) (magnitude count : Nat) : Option Decimal :=
  let units := f.units magnitude
  let exponent := f.leadingExponent units + 1 - count
  let num := units * 10 ^ (-exponent).toNat
  let den := 2 ^ f.unitExponent * 10 ^ exponent.toNat
  let lower : Decimal := ⟨num / den, exponent⟩
  let upper : Decimal := ⟨num / den + 1, exponent⟩
  match f.readsAs magnitude lower, f.readsAs magnitude upper with
  | true, true => some (if 2 * (num % den) < den then lower else upper)
  | true, false => some lower
  | false, true => some upper
  | false, false => none

/-- The shortest decimal that reads back as a positive magnitude pattern. Seventeen
digits always do, for either format. -/
def shortest (f : Format) (magnitude : Nat) : Decimal :=
  (((List.range 17).findSome? fun n => f.withDigits? magnitude (n + 1)).getD ⟨0, 0⟩).strip

def text (f : Format) (bits : Nat) : String :=
  match f.read bits with
  | .nan => "NaN"
  | .infinite negative => if negative then "-inf" else "inf"
  | .finite negative units =>
    let digits := if units = 0 then ['0'] else (f.shortest (f.magnitude bits)).positional
    String.ofList (if negative then '-' :: digits else digits)

def rounded (f : Format) (places units : Nat) : Decimal :=
  let exponent := f.leadingExponent units - places
  let num := units * 10 ^ (-exponent).toNat
  let den := 2 ^ f.unitExponent * 10 ^ exponent.toNat
  let digits := roundHalfEven num den
  if digits = 10 ^ (places + 1) then ⟨10 ^ places, exponent + 1⟩ else ⟨digits, exponent⟩

/-- The text of a bit pattern with one digit, a point, `places` digits and an
exponent of ten. -/
def scientific (f : Format) (places bits : Nat) : String :=
  match f.read bits with
  | .nan => "NaN"
  | .infinite negative => if negative then "-inf" else "inf"
  | .finite negative units =>
    let d := if units = 0 then ⟨0, -(places : Int)⟩ else f.rounded places units
    let digits := Decimal.digitChars d.digits
    let padded := List.replicate (places + 1 - digits.length) '0' ++ digits
    let mantissa := padded.take 1 ++ '.' :: padded.drop 1
    let signed := if negative then '-' :: mantissa else mantissa
    String.ofList signed ++ "e" ++ toString (d.exponent + places)

end Format

end HexCover.Binary

def HexCover.floatText (x : Float) : String :=
  Binary.double.text (Binary.ofFloat x)
