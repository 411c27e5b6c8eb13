import HexCover.Resolution
import Std.Data.ExtTreeSet

/-! Cell identifiers and sets of them. An identifier is an opaque 64-bit word
whose order carries no spatial meaning but makes listings stable. A set has no
repeated member and no order of insertion: two sets with the same members are
equal, and the listing is ascending. -/
namespace HexCover

structure CellId where
  raw : UInt64
deriving DecidableEq, Repr

namespace CellId

instance : Ord CellId := ⟨fun a b => compare a.raw b.raw⟩

instance : Std.TransOrd CellId where
  eq_swap {a b} := Std.OrientedOrd.eq_swap (a := a.raw) (b := b.raw)
  isLE_trans {a b c} := Std.TransOrd.isLE_trans (a := a.raw) (b := b.raw) (c := c.raw)

instance : Std.LawfulEqOrd CellId where
  compare_self {a} := Std.ReflOrd.compare_self (a := a.raw)
  eq_of_compare {a b} h := by
    have same : a.raw = b.raw := Std.LawfulEqOrd.eq_of_compare h
    cases a
    cases b
    simp_all

/-- The identifier in lowercase hexadecimal. -/
def text (cell : CellId) : String := hexText cell.raw.toNat

end CellId

/-- A set of cells, possibly of several resolutions. -/
abbrev CellSet := Std.ExtTreeSet CellId compare

namespace CellSet

def ofCells (cells : List CellId) : CellSet := Std.ExtTreeSet.ofList cells compare

/-- Move the cells of one set to another one, given the order in which the cells of a set come.
The set with fewer cells is emptied. -/
def unionWith (list : CellSet → List CellId) (s t : CellSet) : CellSet :=
  if s.size < t.size then t.insertMany (list s) else s.insertMany (list t)

end CellSet

end HexCover
