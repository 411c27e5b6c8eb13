import HexCover.Error

/-! Resolutions of a hierarchical grid, from 0, the coarsest, to 15, the finest. -/
namespace HexCover

abbrev Resolution := Fin 16

namespace Resolution

instance nonempty : @NeZero Nat Zero.ofOfNat0 16 := ⟨by decide⟩

def all : List Resolution := List.finRange 16

/-- The message for a number that is not a resolution. -/
def outOfRange (n : Nat) : String :=
  "resolution out of range: " ++ toString n ++ " (expected 0..=15)"

def validate (n : Nat) : Except ConversionError Resolution :=
  if h : n < 16 then .ok ⟨n, h⟩ else .error (.invalidResolution (outOfRange n))

/-- What the grid itself reports for a number that is not a resolution. -/
def gridFault (n : Nat) : String :=
  "invalid resolution (got Some(" ++ toString n ++ ")): out of range"

theorem validate_of_lt {n : Nat} (h : n < 16) : validate n = .ok ⟨n, h⟩ := by
  simp [validate, h]

theorem validate_of_ge {n : Nat} (h : 16 ≤ n) :
    validate n = .error (.invalidResolution (outOfRange n)) := by
  simp [validate, Nat.not_lt.mpr h]

end Resolution

end HexCover
