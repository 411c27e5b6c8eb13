import HexCover.Arithmetic
import HexCover.Binary

/-! Numbers read from text. A size is an optional plus sign and decimal digits
below the bound of sizes. A real number has an optional sign, then a word for
infinity or for not-a-number in any case, or digits with an optional point and
an optional exponent; there is a digit before or after the point, and the result
is the nearest binary number. -/
namespace HexCover.Numeral

/-- The number that decimal digits stand for, continuing from `start`. -/
def digitsValue (start : Nat) (digits : List Char) : Nat :=
  digits.foldl (fun n c => 10 * n + (c.toNat - '0'.toNat)) start

/-- The value of a text of at least one decimal digit and nothing else. -/
def natural? (cs : List Char) : Option Nat :=
  if cs.isEmpty || !cs.all Char.isDigit then none else some (digitsValue 0 cs)

def size? (text : String) : Option Nat :=
  let cs := text.toList
  let digits := if cs.head? = some '+' then cs.tail else cs
  (natural? digits).filter (· < Size.bound)

/-- Split an optional sign off a text; the flag is set for a minus. -/
def splitSign : List Char → Bool × List Char
  | '+' :: cs => (false, cs)
  | '-' :: cs => (true, cs)
  | cs => (false, cs)

/-- Read an exponent part: nothing, or a letter `e` and a signed number. -/
def exponent? : List Char → Option Int
  | [] => some 0
  | c :: cs =>
    if c = 'e' || c = 'E' then
      let (negative, digits) := splitSign cs
      (natural? digits).map fun n => if negative then -(n : Int) else n
    else none

/-- The magnitude pattern nearest to `digits * 10 ^ exponent`. Exponents far
outside the format's range are decided by the count of digits alone. -/
def nearestDecimal (f : Binary.Format) (digits : Nat) (exponent : Int) : Nat :=
  let top := exponent + (Nat.toDigits 10 digits).length
  if digits = 0 || top < -400 then 0
  else if 400 < top then f.infinity
  else f.nearest (digits * 10 ^ exponent.toNat * 2 ^ f.unitExponent) (10 ^ (-exponent).toNat)

/-- Read the digits, point and exponent of an unsigned number. -/
def magnitude? (f : Binary.Format) (cs : List Char) : Option Nat :=
  let whole := cs.takeWhile Char.isDigit
  let rest := cs.dropWhile Char.isDigit
  let fraction := if rest.head? = some '.' then rest.tail.takeWhile Char.isDigit else []
  let rest := if rest.head? = some '.' then rest.tail.dropWhile Char.isDigit else rest
  if whole.isEmpty && fraction.isEmpty then none
  else (exponent? rest).map fun e =>
    nearestDecimal f (digitsValue (digitsValue 0 whole) fraction) (e - fraction.length)

def real? (f : Binary.Format) (text : String) : Option Nat :=
  let (negative, cs) := splitSign text.toList
  let word := String.ofList (cs.map Char.toLower)
  let magnitude :=
    if word = "inf" || word = "infinity" then some f.infinity
    else if word = "nan" then some f.quietNaN
    else magnitude? f cs
  magnitude.map (f.withSign negative)

end HexCover.Numeral
