import HexCover.Binary
import HexCover.Json.Tree
import HexCover.Numeral

/-! Numbers of JSON texts. A number without a point and an exponent is an integer if
64 bits hold it. As a binary number, its leading digits make a 64-bit
significand; digits that do not fit are dropped, and those before the point count
in the exponent. The significand is then scaled by one multiplication or division
with a power of ten, so that the result may differ from the nearest number in the
last place. A number beyond the largest finite one is refused. -/
namespace HexCover.Json

/-- Take up digits as long as 64 bits hold the significand; gives it and the number
of digits taken. -/
def takeDigits : (significand : Nat) → List Char → Nat × Nat
  | significand, [] => (significand, 0)
  | significand, c :: cs =>
    let extended := Numeral.digitsValue significand [c]
    if extended < 2 ^ 64 then
      let (total, taken) := takeDigits extended cs
      (total, taken + 1)
    else (significand, 0)

/-- The largest power of ten that scaling uses at once. -/
def maxPower : Nat := 308

def powerOfTen (n : Nat) : Float := Binary.toFloat (Numeral.nearestDecimal Binary.double 1 n)

/-- Scale down by powers of ten that may be larger than `maxPower`. -/
def scaleDown (x : Float) (power : Nat) : Float :=
  if power ≤ maxPower then x / powerOfTen power
  else if x == 0.0 then x
  else scaleDown (x / powerOfTen maxPower) (power - maxPower)
termination_by power
decreasing_by simp only [maxPower] at *; omega

def scale? (significand : Nat) (exponent : Int) : Option Float :=
  let x := Float.ofNat significand
  if exponent < 0 then some (scaleDown x (-exponent).toNat)
  else if exponent ≤ maxPower then
    let scaled := x * powerOfTen exponent.toNat
    if scaled.isInf then none else some scaled
  else if significand = 0 then some x
  else none

/-- The largest exponent that is read; larger ones decide the result at once. -/
def maxExponent : Int := 2147483647

namespace NumberText

/-- The integer that a number is, if it is written as one and 64 bits hold it. A
negative zero is no integer. -/
def integer? (n : NumberText) : Option Int :=
  let value := Numeral.digitsValue 0 n.whole
  if !n.fraction.isEmpty || n.exponent.isSome then none
  else if n.negative then
    if 0 < value ∧ value ≤ 2 ^ 63 then some (-(value : Int)) else none
  else if value < 2 ^ 64 then some (value : Int) else none

def magnitude? (n : NumberText) : Option Float :=
  let (whole, taken) := takeDigits 0 n.whole
  let dropped := n.whole.length - taken
  let (significand, places) := takeDigits whole n.fraction
  let start : Int := (dropped : Int) - places
  match n.exponent with
  | none => scale? significand start
  | some (negative, digits) =>
    let exponent : Int := Numeral.digitsValue 0 digits
    if maxExponent < exponent then
      if significand = 0 || negative then some 0.0 else none
    else if negative then scale? significand (max (-maxExponent - 1) (start - exponent))
    else scale? significand (min maxExponent (start + exponent))

def double? (n : NumberText) : Option Nat :=
  n.magnitude?.map fun x => Binary.double.withSign n.negative (Binary.ofFloat x)

/-- The pattern of a binary number. An integer is rounded at once, any other number
by way of 64 bits. -/
def binary? (f : Binary.Format) (n : NumberText) : Option Nat :=
  match n.integer? with
  | some i => some (f.ofInt i)
  | none => n.double?.map (f.convert Binary.double)

end NumberText

end HexCover.Json
