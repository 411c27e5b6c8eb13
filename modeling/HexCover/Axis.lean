import HexCover.Error

/-! The order of the two dimensions of an array: which one counts columns. -/
namespace HexCover

inductive Dimension where
  | first
  | second
deriving DecidableEq, Repr

/-- The number of a dimension, counted from zero. -/
def Dimension.number : Dimension → Nat
  | first => 0
  | second => 1

/-- How the dimensions of an array stand for columns and rows. -/
inductive AxisOrder where
  /-- The first dimension counts columns. -/
  | xy
  /-- The first dimension counts rows. -/
  | yx
deriving DecidableEq, Repr

namespace AxisOrder

def xAxis : AxisOrder → Dimension
  | xy => .first
  | yx => .second

def yAxis : AxisOrder → Dimension
  | xy => .second
  | yx => .first

def colsRows {α : Type} : AxisOrder → (d₀ d₁ : α) → α × α
  | xy, d₀, d₁ => (d₀, d₁)
  | yx, d₀, d₁ => (d₁, d₀)

/-- The two indexes of the element at a column and a row. -/
def index {α : Type} : AxisOrder → (col row : α) → α × α
  | xy, col, row => (col, row)
  | yx, col, row => (row, col)

def name : AxisOrder → String
  | xy => "xy"
  | yx => "yx"

/-- Read an order, in small letters or in capitals. -/
def parse (text : String) : Except ConversionError AxisOrder :=
  if text = "xy" || text = "XY" then .ok xy
  else if text = "yx" || text = "YX" then .ok yx
  else .error (.unsupportedAxisOrder text)

end AxisOrder

end HexCover
