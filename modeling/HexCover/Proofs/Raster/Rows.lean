import HexCover.Proofs.Lists
import HexCover.Proofs.Raster.Order
import HexCover.Raster.Groups
import Mathlib.Data.List.Sort

/-! The rows of a map. An order that tells the items of a list apart leaves one way to sort
them, however they are listed at first. The values of a map are told apart by their order, and
so are the cells of one value. So the rows are strictly ascending, they depend on what the
map holds and on nothing else, and the cells of each value can be read off them. -/
namespace HexCover.Raster

section Sorting

variable {α : Type} {cmp : α → α → Ordering} {sort : List α → List α}

/-- Items that the order tells apart are sorted strictly. -/
theorem Sorts.strict [Std.OrientedCmp cmp] (sorts : Sorts cmp sort) {items : List α}
    (apart : items.Pairwise fun a b => cmp a b ≠ .eq) :
    (sort items).Pairwise fun a b => cmp a b = .lt := by
  have symmetric {a b : α} (other : cmp a b ≠ .eq) : cmp b a ≠ .eq :=
    mt Std.OrientedCmp.eq_symm other
  have apart' := ((sorts.perm items).pairwise_iff symmetric).mpr apart
  refine (apart'.and (sorts.ascending items)).imp ?_
  rintro a b ⟨other, least⟩
  exact (Ordering.isLE_iff_eq_lt_or_eq_eq.mp least).resolve_right other

theorem sorts_insertionSort [Std.TransCmp cmp] :
    Sorts cmp (List.insertionSort fun a b => (cmp a b).isLE) where
  perm items := List.perm_insertionSort _ items
  ascending items :=
    have : Std.Total fun a b => (cmp a b).isLE = true := ⟨fun a b => by
      have swapped : cmp a b = (cmp b a).swap := Std.OrientedCmp.eq_swap
      rw [swapped]
      cases cmp b a <;> simp⟩
    have : IsTrans α fun a b => (cmp a b).isLE = true := ⟨fun _ _ _ => Std.TransCmp.isLE_trans⟩
    List.pairwise_insertionSort _ items

end Sorting

section Rows

variable {α β : Type} [Ord α] [Std.TransOrd α]

instance : Std.TransCmp (@rowOrder α _) :=
  inferInstanceAs (Std.TransCmp (compareLex (compareOn Prod.fst) (compareOn Prod.snd)))

omit [Std.TransOrd α] in
theorem rowOrder_eq_lt_iff {row row' : α × CellId} : rowOrder row row' = .lt ↔
    compare row.1 row'.1 = .lt ∨ compare row.1 row'.1 = .eq ∧ compare row.2 row'.2 = .lt :=
  Ordering.then_eq_lt

/-- The rows of one item are strictly ascending. -/
theorem map_strict (a : α) {cells : List CellId}
    (strict : cells.Pairwise fun cell cell' => compare cell cell' = .lt) :
    (cells.map fun cell => (a, cell)).Pairwise fun row row' => rowOrder row row' = .lt := by
  refine List.pairwise_map.mpr (strict.imp fun less => ?_)
  exact rowOrder_eq_lt_iff.mpr (.inr ⟨Std.ReflCmp.compare_self, less⟩)

/-- The rows of ascending items are strictly ascending. -/
theorem flatMap_strict {entries : List (α × β)} {cells : β → List CellId}
    (items : entries.Pairwise fun a b => compare a.1 b.1 = .lt)
    (each : ∀ entry ∈ entries,
      (cells entry.2).Pairwise fun cell cell' => compare cell cell' = .lt) :
    (entries.flatMap fun (a, held) => (cells held).map fun cell => (a, cell)).Pairwise
      fun row row' => rowOrder row row' = .lt := by
  refine List.pairwise_flatMap.mpr ⟨fun entry member => ?_, items.imp ?_⟩
  · exact map_strict entry.1 (each entry member)
  · intro entry entry' less row member row' member'
    obtain ⟨cell, _, rfl⟩ := List.mem_map.mp member
    obtain ⟨cell', _, rfl⟩ := List.mem_map.mp member'
    exact rowOrder_eq_lt_iff.mpr (.inl less)

end Rows

namespace Groups

/-- The rows of a grouping are strictly ascending. -/
theorem rows_strict (g : Groups) : g.rows.Pairwise fun a b => rowOrder a b = .lt :=
  flatMap_strict Std.ExtTreeMap.ordered_keys_toList fun _ _ => Std.ExtTreeSet.ordered_toList

/-- Grouping the rows gives back the groups that have a cell. -/
theorem ofPairs_rows (g : Groups) :
    ofPairs g.rows = g.restrict fun key => (g.cells key).isEmpty = false := by
  have occupied (key : Key) : (g.cells key).isEmpty = false ↔ ∃ cell, cell ∈ g.cells key := by
    rw [← Bool.not_eq_true, Std.ExtTreeSet.isEmpty_iff, Std.ExtTreeSet.eq_empty_iff_forall_not_mem,
      not_forall_not]
  refine ext_cells (fun key => ?_) fun key cell => ?_
  · rw [mem_ofPairs, mem_restrict, occupied]
    simp only [mem_rows_iff]
    exact ⟨fun ⟨cell, member⟩ => ⟨mem_of_mem_cells member, cell, member⟩, And.right⟩
  · rw [mem_cells_ofPairs, mem_rows_iff, mem_cells_restrict, occupied]
    exact ⟨fun member => ⟨member, cell, member⟩, And.left⟩

end Groups

namespace Listing

variable {l : Listing}

theorem keys_apart (l : Listing) : l.entries.Pairwise fun a b => a.1.key ≠ b.1.key :=
  l.distinct.imp fun other same => by
    simp [Value.same_iff_key_eq.mpr same] at other

/-- Values of one key have one entry. -/
theorem entry_eq {entry entry' : Value × List CellId} (member : entry ∈ l.entries)
    (member' : entry' ∈ l.entries) (same : entry.1.key = entry'.1.key) : entry = entry' := by
  by_contra other
  have symmetric : Std.Symm fun a b : Value × List CellId => a.1.key ≠ b.1.key :=
    ⟨fun _ _ => Ne.symm⟩
  exact l.keys_apart.forall member member' other same

section Contents

variable {key : Key} {cell : CellId}

/-- The groups of a map hold the cells of its values. -/
theorem mem_cells_groups_iff :
    cell ∈ l.groups.cells key ↔ ∃ v, l.Holds v cell ∧ v.key = key := by
  by_cases present : ∃ entry ∈ l.entries, entry.1.key = key
  · obtain ⟨⟨v, held⟩, member, rfl⟩ := present
    have found : l.groups[v.key]? = some (CellSet.ofCells held) := by
      refine Std.ExtTreeMap.getElem?_ofList_of_mem Std.ReflCmp.compare_self ?_
        (List.mem_map.mpr ⟨_, member, rfl⟩)
      refine List.pairwise_map.mpr (l.keys_apart.imp fun other same => ?_)
      exact other (Std.LawfulEqOrd.eq_of_compare same)
    have listed : cell ∈ l.groups.cells v.key ↔ cell ∈ held := by
      simp [Groups.cells, found, CellSet.ofCells]
    rw [listed]
    constructor
    · exact fun inside => ⟨v, ⟨held, member, inside⟩, rfl⟩
    · rintro ⟨w, ⟨held', member', inside⟩, same⟩
      cases entry_eq member member' same.symm
      exact inside
  · have absent : key ∉ l.groups := by
      simp only [groups, Std.ExtTreeMap.mem_ofList]
      simpa using present
    rw [Groups.cells_of_not_mem absent]
    refine iff_of_false Std.ExtTreeSet.not_mem_empty ?_
    rintro ⟨v, ⟨held, member, _⟩, same⟩
    exact present ⟨_, member, same⟩

end Contents

section Sorted

variable {byCell : List CellId → List CellId} (cells : Sorts compare byCell)
include cells

/-- The cells of an entry are sorted strictly. -/
theorem cells_strict {entry : Value × List CellId} (member : entry ∈ l.entries) :
    (byCell entry.2).Pairwise fun cell cell' => compare cell cell' = .lt :=
  cells.strict <| (l.nodup entry member).imp fun other same =>
    other (Std.LawfulEqOrd.eq_of_compare same)

variable {byValue : List (Value × List CellId) → List (Value × List CellId)}
  (values : Sorts (compareOn Prod.fst) byValue)
include values

theorem mem_rows_iff {v : Value} {cell : CellId} :
    (v, cell) ∈ l.rows byValue byCell ↔ l.Holds v cell := by
  simp [rows, Holds, (values.perm l.entries).mem_iff, (cells.perm _).mem_iff]

theorem rows_strict : (l.rows byValue byCell).Pairwise fun a b => rowOrder a b = .lt := by
  have apart : l.entries.Pairwise fun a b => compareOn Prod.fst a b ≠ .eq :=
    l.distinct.imp fun other same => by
      simp [Value.compare_eq_iff_same.mp same] at other
  refine flatMap_strict (values.strict apart) fun entry member => ?_
  exact cells_strict cells ((values.perm _).mem_iff.mp member)

theorem nodup_rows : (l.rows byValue byCell).Nodup :=
  nodup_of_strict (rows_strict cells values)

/-- The rows with the keys of their values are the rows of the groups. -/
theorem map_key_rows :
    (l.rows byValue byCell).map (fun row => (row.1.key, row.2)) = l.groups.rows := by
  refine eq_of_strict ?_ l.groups.rows_strict fun (key, cell) => ?_
  · refine List.pairwise_map.mpr ((rows_strict cells values).imp fun less => ?_)
    simpa only [rowOrder_eq_lt_iff, Value.compare_eq_compare_key] using less
  · rw [Groups.mem_rows_iff, mem_cells_groups_iff, List.mem_map]
    constructor
    · rintro ⟨⟨v, cell⟩, member, same⟩
      cases same
      exact ⟨v, (mem_rows_iff cells values).mp member, rfl⟩
    · rintro ⟨v, holds, rfl⟩
      exact ⟨(v, cell), (mem_rows_iff cells values).mpr holds, rfl⟩

/-- The rows of a value list its cells. -/
theorem filter_rows {v : Value} {held : List CellId} (member : (v, held) ∈ l.entries) :
    ((l.rows byValue byCell).filter fun row => row.1.same v) =
      (byCell held).map fun cell => (v, cell) := by
  refine eq_of_strict ((rows_strict cells values).filter _)
    (map_strict v (cells_strict cells member)) ?_
  rintro ⟨w, cell⟩
  rw [List.mem_filter, mem_rows_iff cells values, Value.same_iff_key_eq, List.mem_map]
  constructor
  · rintro ⟨⟨held', member', inside⟩, same⟩
    cases entry_eq member' member same
    exact ⟨cell, (cells.perm _).mem_iff.mpr inside, rfl⟩
  · rintro ⟨cell, inside, same⟩
    cases same
    exact ⟨⟨held, member, (cells.perm _).mem_iff.mp inside⟩, rfl⟩

/-- The rows of a map are a faithful listing of it. They are strictly ascending by value and
then by cell, where values are ordered by type and then by number. -/
theorem rows_faithful : Value.TotalOrder compare ∧
    (l.rows byValue byCell).Pairwise (fun row row' => compare row.1 row'.1 = .lt ∨
      compare row.1 row'.1 = .eq ∧ row.2.raw < row'.2.raw) ∧
    (l.rows byValue byCell).Nodup ∧
    (∀ v cell, (v, cell) ∈ l.rows byValue byCell ↔ l.Holds v cell) ∧
    (∀ (l' : Listing) byValue' byCell', Sorts (compareOn Prod.fst) byValue' →
      Sorts compare byCell' → (∀ v cell, l'.Holds v cell ↔ l.Holds v cell) →
        l'.rows byValue' byCell' = l.rows byValue byCell) ∧
    (∀ v held, (v, held) ∈ l.entries → ((l.rows byValue byCell).filter fun row => row.1.same v) =
      (byCell held).map fun cell => (v, cell)) ∧
    (l.rows byValue byCell).map (fun row => (row.1.key, row.2)) = l.groups.rows ∧
    Groups.ofPairs l.groups.rows =
      l.groups.restrict fun key => (l.groups.cells key).isEmpty = false := by
  refine ⟨Value.totalOrder, ?_, nodup_rows cells values, fun _ _ => mem_rows_iff cells values, ?_,
    fun _ _ => filter_rows cells values, map_key_rows cells values, l.groups.ofPairs_rows⟩
  · refine (rows_strict cells values).imp fun less => ?_
    exact (rowOrder_eq_lt_iff.mp less).imp_right (And.imp_right Std.compare_eq_lt.mp)
  · intro l' byValue' byCell' values' cells' same
    refine eq_of_strict (rows_strict cells' values') (rows_strict cells values) fun (v, cell) => ?_
    rw [mem_rows_iff cells' values', mem_rows_iff cells values, same]

end Sorted

/-- Values of several types, one of them without cells. -/
def mixed : Listing where
  entries := [(⟨.float32, 0xffc00001⟩, [⟨7⟩, ⟨2⟩]), (⟨.uint8, 3⟩, []),
    (⟨.float32, 0x80000000⟩, [⟨9⟩]), (⟨.int8, 0xff⟩, [⟨2⟩, ⟨4⟩])]
  distinct := by decide
  nodup := by decide

def mixed' : Listing where
  entries := [(⟨.int8, 0xff⟩, [⟨4⟩, ⟨2⟩]), (⟨.float32, 0x80000000⟩, [⟨9⟩]),
    (⟨.float32, 0xffc00001⟩, [⟨2⟩, ⟨7⟩])]
  distinct := by decide
  nodup := by decide

/-- A negative zero comes before what is not a number, after the values of other types. -/
theorem rows_faithful_mixed :
    let byCell := List.insertionSort fun a b : CellId => (compare a b).isLE
    let byValue := List.insertionSort fun a b : Value × List CellId =>
      (compareOn Prod.fst a b).isLE
    Sorts compare byCell ∧ Sorts (compareOn Prod.fst) byValue ∧
      mixed.rows byValue byCell = [(⟨.int8, 0xff⟩, ⟨2⟩), (⟨.int8, 0xff⟩, ⟨4⟩),
        (⟨.float32, 0x80000000⟩, ⟨9⟩), (⟨.float32, 0xffc00001⟩, ⟨2⟩),
        (⟨.float32, 0xffc00001⟩, ⟨7⟩)] ∧
      mixed'.rows byValue byCell = mixed.rows byValue byCell := by
  intro byCell byValue
  have cells : Sorts compare byCell := sorts_insertionSort
  have values : Sorts (compareOn Prod.fst) byValue := sorts_insertionSort
  obtain ⟨_, _, _, _, listed, _⟩ := rows_faithful (l := mixed) cells values
  refine ⟨cells, values, by decide +kernel, ?_⟩
  refine listed mixed' byValue byCell values cells fun v cell => ?_
  simp only [Holds, mixed, mixed']
  grind

end Listing

end HexCover.Raster
