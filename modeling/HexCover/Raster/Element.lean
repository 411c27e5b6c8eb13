import HexCover.Binary
import HexCover.Error
import HexCover.Text.Lowercase

/-! The element types of rasters: signed and unsigned integers of four widths and
binary numbers of two. A type is read from its name or from the short name of a
letter and a width, in any case. -/
namespace HexCover.Raster

inductive ElementType where
  | int8
  | int16
  | int32
  | int64
  | uint8
  | uint16
  | uint32
  | uint64
  | float32
  | float64
deriving DecidableEq, Repr

/-- How the bits of an element are read. -/
inductive Encoding where
  | signed
  | unsigned
  | binary (format : Binary.Format)
deriving DecidableEq, Repr

namespace ElementType

/-- Every type, in the order of grouping keys. -/
def all : List ElementType :=
  [int8, int16, int32, int64, uint8, uint16, uint32, uint64, float32, float64]

def place : ElementType → Nat
  | int8 => 0
  | int16 => 1
  | int32 => 2
  | int64 => 3
  | uint8 => 4
  | uint16 => 5
  | uint32 => 6
  | uint64 => 7
  | float32 => 8
  | float64 => 9

theorem place_injective {s t : ElementType} (h : s.place = t.place) : s = t := by
  revert h
  cases s <;> cases t <;> decide

def size : ElementType → Nat
  | int8 | uint8 => 1
  | int16 | uint16 => 2
  | int32 | uint32 | float32 => 4
  | int64 | uint64 | float64 => 8

def width (t : ElementType) : Nat := 8 * t.size

def encoding : ElementType → Encoding
  | int8 | int16 | int32 | int64 => .signed
  | uint8 | uint16 | uint32 | uint64 => .unsigned
  | float32 => .binary Binary.single
  | float64 => .binary Binary.double

def isFloat (t : ElementType) : Bool := t = float32 || t = float64

def name : ElementType → String
  | int8 => "int8"
  | int16 => "int16"
  | int32 => "int32"
  | int64 => "int64"
  | uint8 => "uint8"
  | uint16 => "uint16"
  | uint32 => "uint32"
  | uint64 => "uint64"
  | float32 => "float32"
  | float64 => "float64"

def shortName : ElementType → String
  | int8 => "i8"
  | int16 => "i16"
  | int32 => "i32"
  | int64 => "i64"
  | uint8 => "u8"
  | uint16 => "u16"
  | uint32 => "u32"
  | uint64 => "u64"
  | float32 => "f32"
  | float64 => "f64"

def ofName? (name : String) : Option ElementType := all.find? fun t => t.name = name

/-- Read a name or a short name in any case. -/
def parse (text : String) : Except ConversionError ElementType :=
  let small := lowercase text
  match all.find? fun t => t.name = small || t.shortName = small with
  | some t => .ok t
  | none => .error (.unsupportedElementType text)

end ElementType

end HexCover.Raster
