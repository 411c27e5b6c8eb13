/-! The numbers of the library. Powers are the repeated multiplication of the core library,
whichever other definitions of powers are in reach of a module. Sizes and indexes are
64-bit words, and their operations say what happens at the end of that range. Transforms,
areas and the choice of a resolution only add, multiply, divide and compare, so they are
written for any number type; conversions run them on machine floats. -/
namespace HexCover

@[default_instance 20000]
instance (priority := 2000) natPower : Pow Nat Nat := @instPowNat Nat instNatPowNat

instance (priority := 2000) intPower : Pow Int Nat := @instPowNat Int Int.instNatPow

namespace Size

/-- One more than the largest size. -/
def bound : Nat := 2 ^ 64

def mul? (a b : Nat) : Option Nat := if a * b < bound then some (a * b) else none

def add? (a b : Nat) : Option Nat := if a + b < bound then some (a + b) else none

/-- The sum of two sizes, cut off at the largest size. -/
def addSaturating (a b : Nat) : Nat := min (a + b) (bound - 1)

def mulSaturating (a b : Nat) : Nat := min (a * b) (bound - 1)

/-- The number of pieces of size `b` that cover `a`. -/
def divCeil (a b : Nat) : Nat := (a + b - 1) / b

end Size

/-- What a number type has besides arithmetic and comparison. -/
class Scalar (α : Type) where
  isFinite : α → Bool
  abs : α → α

instance : Scalar Float := ⟨Float.isFinite, Float.abs⟩

instance floatNatCast : NatCast Float := ⟨Float.ofNat⟩

end HexCover
