import HexCover.Arithmetic

/-! Binary floating point as integers. A bit pattern of an interchange format is
read as a signed multiple of the format's smallest positive number, its unit:
2 ^ -149 for 32 bits and 2 ^ -1074 for 64 bits. On units every comparison,
difference and conversion is integer arithmetic, and rounding is one division to
the nearest integer, ties to even. Bit patterns are natural numbers below
2 ^ width. -/
namespace HexCover

/-- Divide to the nearest integer; a tie goes to the even neighbour. -/
def roundHalfEven (num den : Nat) : Nat :=
  let quotient := num / den
  let rest := num % den
  if 2 * rest < den then quotient
  else if den < 2 * rest then quotient + 1
  else quotient + quotient % 2

namespace Binary

/-- The widths of the exponent and the fraction of an interchange format; one
sign bit stands above them. -/
structure Format where
  exponentBits : Nat
  fractionBits : Nat
deriving DecidableEq, Repr

def single : Format := ⟨8, 23⟩

def double : Format := ⟨11, 52⟩

namespace Format

/-- The weight of the sign bit, one more than the largest magnitude pattern. -/
def signWeight (f : Format) : Nat := 2 ^ (f.exponentBits + f.fractionBits)

/-- The magnitude pattern of infinity; larger patterns are not numbers. -/
def infinity (f : Format) : Nat := (2 ^ f.exponentBits - 1) * 2 ^ f.fractionBits

/-- The pattern that stands for every result that is not a number. -/
def quietNaN (f : Format) : Nat := f.infinity + 2 ^ (f.fractionBits - 1)

/-- The unit of the format is two to the minus this. -/
def unitExponent (f : Format) : Nat := 2 ^ (f.exponentBits - 1) - 2 + f.fractionBits

def magnitude (f : Format) (bits : Nat) : Nat := bits % f.signWeight

def isNegative (f : Format) (bits : Nat) : Bool := bits / f.signWeight % 2 == 1

def isNaN (f : Format) (bits : Nat) : Bool := f.infinity < f.magnitude bits

def isFinite (f : Format) (bits : Nat) : Bool := f.magnitude bits < f.infinity

/-- The value of a magnitude pattern, in units. Patterns are consecutive, so the
formula also gives the end of the interval above the largest finite number. -/
def units (f : Format) (magnitude : Nat) : Nat :=
  let exponent := magnitude / 2 ^ f.fractionBits
  let fraction := magnitude % 2 ^ f.fractionBits
  if exponent = 0 then fraction else (2 ^ f.fractionBits + fraction) * 2 ^ (exponent - 1)

/-- The magnitude pattern nearest to a quotient of units. The pattern of a
number with `shift` more exponent steps than the finest is `shift` blocks of
fractions above its significand, and a significand that rounds up to the next
power of two lands on the next block by itself. -/
def nearest (f : Format) (num den : Nat) : Nat :=
  let shift := Nat.log2 (num / den) + 1 - (f.fractionBits + 1)
  min f.infinity (shift * 2 ^ f.fractionBits + roundHalfEven num (den * 2 ^ shift))

def withSign (f : Format) (negative : Bool) (magnitude : Nat) : Nat :=
  if negative then f.signWeight + magnitude else magnitude

end Format

/-- What a bit pattern stands for. -/
inductive Reading where
  | nan
  | infinite (negative : Bool)
  | finite (negative : Bool) (units : Nat)
deriving DecidableEq, Repr

def Format.read (f : Format) (bits : Nat) : Reading :=
  let magnitude := f.magnitude bits
  if f.infinity < magnitude then .nan
  else if magnitude = f.infinity then .infinite (f.isNegative bits)
  else .finite (f.isNegative bits) (f.units magnitude)

/-- The signed value of a finite reading, in units. -/
def signedUnits (negative : Bool) (units : Nat) : Int :=
  if negative then -(units : Int) else units

/-- The pattern of format `f` nearest to an integer. -/
def Format.ofInt (f : Format) (n : Int) : Nat :=
  f.withSign (n < 0) (f.nearest (n.natAbs * 2 ^ f.unitExponent) 1)

/-- Convert a pattern of format `source` to the nearest one of format `f`. Signs
of zeros and infinities are kept. -/
def Format.convert (f source : Format) (bits : Nat) : Nat :=
  if f = source then bits
  else match source.read bits with
    | .nan => f.quietNaN
    | .infinite negative => f.withSign negative f.infinity
    | .finite negative units =>
      f.withSign negative (f.nearest (units * 2 ^ f.unitExponent) (2 ^ source.unitExponent))

/-- Equality of numbers: the two zeros are equal, and what is not a number
equals nothing. -/
def Format.equal (f : Format) (a b : Nat) : Bool :=
  match f.read a, f.read b with
  | .infinite s, .infinite t => s == t
  | .finite s m, .finite t n => signedUnits s m == signedUnits t n
  | _, _ => false

/-- Whether one number is at least another one; what is not a number compares with nothing. -/
def Format.atLeast (f : Format) (a b : Nat) : Bool :=
  match f.read a, f.read b with
  | .nan, _ => false
  | _, .nan => false
  | .infinite s, .infinite t => !s || t
  | .infinite s, .finite _ _ => !s
  | .finite _ _, .infinite t => t
  | .finite s m, .finite t n => signedUnits t n ≤ signedUnits s m

/-- The order of numbers, in which everything that is not a number comes last. -/
def Format.order (f : Format) (a b : Nat) : Ordering :=
  if !(f.isNaN a || f.atLeast a b) then .lt
  else if !(f.isNaN b || f.atLeast b a) then .gt
  else .eq

/-- The distance of two numbers, rounded to the format; `none` where the
difference is not a number. -/
def Format.distance (f : Format) (a b : Nat) : Option Nat :=
  match f.read a, f.read b with
  | .nan, _ => none
  | _, .nan => none
  | .infinite s, .infinite t => if s == t then none else some f.infinity
  | .infinite _, .finite _ _ => some f.infinity
  | .finite _ _, .infinite _ => some f.infinity
  | .finite s m, .finite t n => some (f.nearest (signedUnits s m - signedUnits t n).natAbs 1)

/-- A rank that orders bit patterns as grouping keys: by value, the two zeros
alike, and everything that is not a number alike and above all numbers. -/
def Format.rank (f : Format) (bits : Nat) : Int :=
  let magnitude := f.magnitude bits
  if f.infinity < magnitude then f.infinity + 1
  else if f.isNegative bits then -(magnitude : Int)
  else magnitude

/-- The representative pattern of a rank: zero is positive, and what is not a
number is the quiet pattern. -/
def Format.ofRank (f : Format) (rank : Int) : Nat :=
  if (f.infinity : Int) < rank then f.quietNaN
  else f.withSign (rank < 0) rank.natAbs

def ofFloat (x : Float) : Nat := x.toBits.toNat

def toFloat (bits : Nat) : Float := Float.ofBits (UInt64.ofNat bits)

end Binary

end HexCover
