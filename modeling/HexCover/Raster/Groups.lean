import HexCover.CellSet
import HexCover.Raster.Value
import Std.Data.ExtTreeMap

/-! Cells grouped by value. A grouping maps the keys of values to the sets of cells on which
they occur. Groupings of parts of a raster are merged key by key: of two of them the one
with fewer keys is emptied into the other one, in any order, and so are their sets. The rows
of a grouping list every cell with its value, by value and then by cell.

A listing is a table of values as it happens to be held. For its rows the entries are sorted
by value, and the cells of each entry on their own; how equal items are arranged is left to
the way of sorting. -/
namespace HexCover.Raster

abbrev Groups := Std.ExtTreeMap Key CellSet compare

/-- Orders in which the groups of a grouping and the cells of a group come. -/
structure Traversal where
  groups : Groups → List (Key × CellSet)
  cells : Key → CellSet → List CellId
  groups_perm : ∀ g, (groups g).Perm g.toList
  cells_perm : ∀ key s, (cells key s).Perm s.toList

namespace Groups

def addCells (g : Groups) (key : Key) (cells : CellSet) : Groups :=
  g.alter key fun present => some (present.getD ∅ ∪ cells)

def add (g : Groups) (key : Key) (cell : CellId) : Groups :=
  g.alter key fun present => some ((present.getD ∅).insert cell)

/-- Add every group of `small` to `large`. -/
def absorb (large small : Groups) : Groups := small.foldl addCells large

/-- Merge two groupings. The one with fewer keys is added to the other one. -/
def merge (g h : Groups) : Groups := if g.size < h.size then absorb h g else absorb g h

/-- Move a group to a grouping. The cells of a new key are taken as they are. -/
def takeGroup (order : Traversal) (g : Groups) (part : Key × CellSet) : Groups :=
  match g[part.1]? with
  | some present => g.insert part.1 (present.unionWith (order.cells part.1) part.2)
  | none => g.insert part.1 part.2

def takeAll (order : Traversal) (g h : Groups) : Groups :=
  (order.groups h).foldl (takeGroup order) g

/-- Merge two groupings as `merge` does, group by group in the order in which they come. -/
def mergeStepwise (order : Traversal) (g h : Groups) : Groups :=
  if g.size < h.size then takeAll order h g else takeAll order g h

def rows (g : Groups) : List (Key × CellId) :=
  g.toList.flatMap fun (key, cells) => cells.toList.map fun cell => (key, cell)

end Groups

/-- A way to sort a list, which may rearrange items of one rank. -/
structure Sorts {α : Type} (order : α → α → Ordering) (sort : List α → List α) : Prop where
  perm : ∀ items, (sort items).Perm items
  ascending : ∀ items, (sort items).Pairwise fun a b => (order a b).isLE

/-- The order of rows: by value, then by cell. -/
def rowOrder {α : Type} [Ord α] : α × CellId → α × CellId → Ordering :=
  compareLex (compareOn Prod.fst) (compareOn Prod.snd)

/-- A map from values to sets of cells, as it happens to be listed. -/
structure Listing where
  entries : List (Value × List CellId)
  distinct : entries.Pairwise fun a b => a.1.same b.1 = false
  nodup : ∀ entry ∈ entries, entry.2.Nodup

namespace Listing

def Holds (l : Listing) (v : Value) (cell : CellId) : Prop :=
  ∃ cells, (v, cells) ∈ l.entries ∧ cell ∈ cells

def rows (byValue : List (Value × List CellId) → List (Value × List CellId))
    (byCell : List CellId → List CellId) (l : Listing) : List (Value × CellId) :=
  (byValue l.entries).flatMap fun (v, cells) => (byCell cells).map fun cell => (v, cell)

/-- The map with the keys of its values. -/
def groups (l : Listing) : Groups :=
  .ofList (l.entries.map fun (v, cells) => (v.key, CellSet.ofCells cells))

end Listing

end HexCover.Raster
