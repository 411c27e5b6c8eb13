import HexCover.Binary.Text
import HexCover.Bytes
import HexCover.Raster.Element

/-! Pixels and values. A pixel is the bit pattern of one element of a known type; a
value is a pixel together with its type. Numbers are converted between types
exactly where that is possible: towards an integer type a fraction is cut off and
what is out of range has no result, towards a binary format the nearest number is
taken. A value that stands for a pixel of another type is converted more strictly:
towards an integer type it has to be an integer already.

Values are grouped by keys. A key is the type and the rank of the value among the
values of its type; the two zeros of a binary format have one rank, and so has
everything that is not a number, above all numbers. -/
namespace HexCover.Raster

abbrev Pixel (t : ElementType) := BitVec t.width

structure Value where
  type : ElementType
  bits : Pixel type
deriving DecidableEq, Repr

/-- What the bits of an element stand for. -/
inductive Number where
  | integer (n : Int)
  | binary (format : Binary.Format) (bits : Nat)
deriving DecidableEq, Repr

namespace Pixel

variable {t : ElementType}

def number (p : Pixel t) : Number :=
  match t.encoding with
  | .signed => .integer p.toInt
  | .unsigned => .integer p.toNat
  | .binary f => .binary f p.toNat

/-- The pixel with a pattern; higher bits are dropped. -/
def ofPattern (t : ElementType) (pattern : Nat) : Pixel t := BitVec.ofNat t.width pattern

/-- The pixel that little-endian bytes stand for. -/
def ofBytes (t : ElementType) (bytes : List UInt8) : Pixel t := ofPattern t (Bytes.toNat bytes)

def toBytes (p : Pixel t) : List UInt8 := Bytes.ofNat t.size p.toNat

end Pixel

/-- The integer that is left when the fraction of a number is cut off. -/
def Number.truncated? : Number → Option Int
  | .integer n => some n
  | .binary f bits => match f.read bits with
    | .finite negative units => some (Binary.signedUnits negative (units / 2 ^ f.unitExponent))
    | _ => none

def Number.hasFraction : Number → Bool
  | .integer _ => false
  | .binary f bits => match f.read bits with
    | .finite _ units => units % 2 ^ f.unitExponent != 0
    | _ => false

/-- The pattern of a binary format nearest to a number. -/
def Number.nearest (f : Binary.Format) : Number → Nat
  | .integer n => f.ofInt n
  | .binary source bits => f.convert source bits

namespace ElementType

def least (t : ElementType) : Int :=
  if t.encoding = .signed then -(2 ^ (t.width - 1)) else 0

def greatest (t : ElementType) : Int :=
  if t.encoding = .signed then 2 ^ (t.width - 1) - 1 else 2 ^ t.width - 1

def ofInt? (t : ElementType) (n : Int) : Option (Pixel t) :=
  if t.least ≤ n ∧ n ≤ t.greatest then some (BitVec.ofInt t.width n) else none

end ElementType

namespace Value

def number (v : Value) : Number := Pixel.number v.bits

/-- The value as a pixel of type `t`: without its fraction or rounded; `none` out of
the range of an integer type. -/
def cast (v : Value) (t : ElementType) : Option (Pixel t) :=
  match t.encoding with
  | .binary f => some (Pixel.ofPattern t (v.number.nearest f))
  | _ => v.number.truncated?.bind t.ofInt?

def double (v : Value) : Nat := v.number.nearest Binary.double

/-- The value as a pixel of type `t`, if the type can represent it. Whether a value has a
fraction is seen from its 64-bit pattern. -/
def pixel? (v : Value) (t : ElementType) : Option (Pixel t) := do
  let p ← v.cast t
  if !t.isFloat && v.type.isFloat && (Number.binary Binary.double v.double).hasFraction then none
  else some p

/-- Whether two values are the same: numbers of one type that are equal, where everything that
is not a number is the same. -/
def same (v w : Value) : Bool :=
  v.type = w.type && match v.number, w.number with
    | .integer m, .integer n => m == n
    | .binary f a, .binary _ b => if f.isNaN a then f.isNaN b else f.equal a b
    | _, _ => false

/-- The order of values: by type, in the order of the types, then by number. -/
def order (v w : Value) : Ordering :=
  (compare v.type.place w.type.place).then <| match v.number, w.number with
    | .integer m, .integer n => compare m n
    | .binary f a, .binary _ b => f.order a b
    | _, _ => .eq

instance : Ord Value := ⟨order⟩

def text (v : Value) : String :=
  match v.number with
  | .integer n => toString n
  | .binary f bits => f.text bits

end Value

/-- What values are grouped and sorted by. -/
structure Key where
  type : ElementType
  rank : Int
deriving DecidableEq, Repr

namespace Key

/-- Keys are ordered by type, then by rank. -/
instance : Ord Key := ⟨compareLex (compareOn fun k => k.type.place) (compareOn Key.rank)⟩

instance : Std.TransOrd Key :=
  inferInstanceAs (Std.TransCmp (compareLex (compareOn fun k => k.type.place) (compareOn Key.rank)))

instance : Std.LawfulEqOrd Key where
  eq_of_compare {k l} h := by
    obtain ⟨places, ranks⟩ := Ordering.then_eq_eq.mp h
    have types := ElementType.place_injective (Std.LawfulEqOrd.eq_of_compare places)
    have ranks : k.rank = l.rank := Std.LawfulEqOrd.eq_of_compare ranks
    cases k
    cases l
    simp_all

/-- The value that stands for a key: zero is positive, and what is not a number is
the quiet pattern. -/
def value (k : Key) : Value where
  type := k.type
  bits := match k.type.encoding with
    | .binary f => Pixel.ofPattern k.type (f.ofRank k.rank)
    | _ => BitVec.ofInt k.type.width k.rank

end Key

def Pixel.key {t : ElementType} (p : Pixel t) : Key where
  type := t
  rank := match p.number with
    | .integer n => n
    | .binary f bits => f.rank bits

def Value.key (v : Value) : Key := Pixel.key v.bits

end HexCover.Raster
