import HexCover.Arithmetic

/-! Numbers written as bytes. A number of a fixed count of bytes is read and
written in either byte order; the little-endian reading is the positional value
in base 256 with the lowest place first, and the big-endian one is the same
reading of the reversed bytes. -/
namespace HexCover

inductive ByteOrder where
  | big
  | little
deriving DecidableEq, Repr

namespace Bytes

/-- The number that little-endian bytes stand for. -/
def toNat : List UInt8 → Nat
  | [] => 0
  | b :: bs => b.toNat + 256 * toNat bs

/-- The `count` little-endian bytes of a number; higher places are dropped. -/
def ofNat : (count : Nat) → Nat → List UInt8
  | 0, _ => []
  | count + 1, n => UInt8.ofNat n :: ofNat count (n / 256)

@[simp] theorem length_ofNat (count n : Nat) : (ofNat count n).length = count := by
  induction count generalizing n with
  | zero => rfl
  | succ count ih => simp [ofNat, ih]

theorem toNat_lt (bs : List UInt8) : toNat bs < 256 ^ bs.length := by
  induction bs with
  | nil => simp [toNat]
  | cons b bs ih =>
    have hb := b.toNat_lt
    simp only [toNat, List.length_cons, Nat.pow_succ]
    omega

theorem toNat_ofNat (count n : Nat) : toNat (ofNat count n) = n % 256 ^ count := by
  induction count generalizing n with
  | zero => simp [ofNat, toNat, Nat.mod_one]
  | succ count ih =>
    have byte : (UInt8.ofNat n).toNat = n % 256 := by simp
    rw [ofNat, toNat, ih, byte, Nat.pow_succ', Nat.mod_mul]

theorem ofNat_toNat (bs : List UInt8) : ofNat bs.length (toNat bs) = bs := by
  induction bs with
  | nil => rfl
  | cons b bs ih =>
    have hb := b.toNat_lt
    have hq : (b.toNat + 256 * toNat bs) / 256 = toNat bs := by omega
    have hr : UInt8.ofNat (b.toNat + 256 * toNat bs) = b := by
      apply UInt8.toNat_inj.mp
      have byte : (UInt8.ofNat (b.toNat + 256 * toNat bs)).toNat =
          (b.toNat + 256 * toNat bs) % 256 := by simp
      omega
    simp only [List.length_cons, toNat, ofNat, hq, hr, ih]

end Bytes

def ByteOrder.read : ByteOrder → List UInt8 → Nat
  | .little, bs => Bytes.toNat bs
  | .big, bs => Bytes.toNat bs.reverse

/-- Write the `count` low bytes of a number in this order. -/
def ByteOrder.write : ByteOrder → (count : Nat) → Nat → List UInt8
  | .little, count, n => Bytes.ofNat count n
  | .big, count, n => (Bytes.ofNat count n).reverse

@[simp] theorem ByteOrder.length_write (order : ByteOrder) (count n : Nat) :
    (order.write count n).length = count := by
  cases order <;> simp [ByteOrder.write]

theorem ByteOrder.read_write (order : ByteOrder) (count n : Nat) :
    order.read (order.write count n) = n % 256 ^ count := by
  cases order <;> simp [ByteOrder.read, ByteOrder.write, Bytes.toNat_ofNat]

theorem ByteOrder.write_read (order : ByteOrder) (bs : List UInt8) :
    order.write bs.length (order.read bs) = bs := by
  cases order
  · have h := Bytes.ofNat_toNat bs.reverse
    simp only [List.length_reverse] at h
    simp [ByteOrder.read, ByteOrder.write, h]
  · exact Bytes.ofNat_toNat bs

theorem ByteOrder.read_lt (order : ByteOrder) (bs : List UInt8) :
    order.read bs < 256 ^ bs.length := by
  cases order
  · simpa [ByteOrder.read] using Bytes.toNat_lt bs.reverse
  · exact Bytes.toNat_lt bs

end HexCover
