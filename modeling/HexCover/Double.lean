import HexCover.Binary
import HexCover.Bytes

/-! Numbers that are carried through unchanged. They are kept as their 64-bit
patterns, so that what is not a number keeps its payload; comparison is that of
numbers. -/
namespace HexCover

/-- A 64-bit binary number by its pattern. -/
structure Double where
  bits : BitVec 64
deriving DecidableEq, Repr

namespace Double

def ofNat (pattern : Nat) : Double := ⟨BitVec.ofNat 64 pattern⟩

def toFloat (x : Double) : Float := Binary.toFloat x.bits.toNat

def ofFloat (x : Float) : Double := .ofNat (Binary.ofFloat x)

def isNaN (x : Double) : Bool := Binary.double.isNaN x.bits.toNat

/-- Equality of numbers: zeros are equal, and what is no number equals nothing. -/
def same (x y : Double) : Bool := Binary.double.equal x.bits.toNat y.bits.toNat

def write (order : ByteOrder) (x : Double) : List UInt8 := order.write 8 x.bits.toNat

def read (order : ByteOrder) (bytes : List UInt8) : Double := .ofNat (order.read bytes)

@[simp] theorem length_write (order : ByteOrder) (x : Double) : (x.write order).length = 8 := by
  simp [write]

theorem read_write (order : ByteOrder) (x : Double) : read order (x.write order) = x := by
  have small : x.bits.toNat < 256 ^ 8 := x.bits.isLt
  rw [read, write, ByteOrder.read_write, Nat.mod_eq_of_lt small, ofNat, BitVec.ofNat_toNat,
    BitVec.setWidth_eq]

theorem write_read {order : ByteOrder} {bytes : List UInt8} (eight : bytes.length = 8) :
    (read order bytes).write order = bytes := by
  have small : order.read bytes < 256 ^ 8 := eight ▸ order.read_lt bytes
  have pattern : (read order bytes).bits.toNat = order.read bytes := by
    rw [read, ofNat, BitVec.toNat_ofNat]
    exact Nat.mod_eq_of_lt small
  rw [write, pattern, ← eight, order.write_read]

end Double

end HexCover
