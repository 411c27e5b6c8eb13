import HexCover.Arithmetic
import Mathlib.Data.List.FinRange
import Mathlib.Data.List.Range
import Mathlib.Data.List.Sort

/-! Lists in order and lists in pieces. An order that tells the items of a list apart leaves
one way to list them. The pieces of one size of a list, the last of which may be shorter,
put together are the list. -/
namespace HexCover

variable {α : Type}

section Ascending

variable {cmp : α → α → Ordering}

theorem nodup_of_strict [Std.OrientedCmp cmp] {items : List α}
    (strict : items.Pairwise fun a b => cmp a b = .lt) : items.Nodup := by
  refine strict.imp ?_
  rintro a _ less rfl
  simp [Std.ReflCmp.compare_self] at less

/-- A strictly ascending list is determined by its members. -/
theorem eq_of_strict [Std.OrientedCmp cmp] {items items' : List α}
    (strict : items.Pairwise fun a b => cmp a b = .lt)
    (strict' : items'.Pairwise fun a b => cmp a b = .lt) (same : ∀ a, a ∈ items ↔ a ∈ items') :
    items = items' := by
  refine List.Perm.eq_of_pairwise (fun a b _ _ less greater => ?_) strict strict' ?_
  · have swapped : cmp a b = (cmp b a).swap := Std.OrientedCmp.eq_swap
    rw [less, greater] at swapped
    contradiction
  · exact (List.perm_ext_iff_of_nodup (nodup_of_strict strict) (nodup_of_strict strict')).mpr same

end Ascending

section Pieces

theorem Size.lt_divCeil_iff {a b i : Nat} (positive : 0 < b) :
    i < Size.divCeil a b ↔ i * b < a := by
  rw [Size.divCeil, Nat.lt_iff_add_one_le, Nat.le_div_iff_mul_le positive, Nat.add_mul]
  omega

theorem Size.divCeil_pos {a b : Nat} (nonempty : 0 < a) (positive : 0 < b) :
    0 < Size.divCeil a b := by
  rwa [Size.lt_divCeil_iff positive, Nat.zero_mul]

theorem Size.le_divCeil_mul (a : Nat) {b : Nat} (positive : 0 < b) :
    a ≤ Size.divCeil a b * b := by
  have beyond : ¬ Size.divCeil a b < Size.divCeil a b := Nat.lt_irrefl _
  rw [Size.lt_divCeil_iff positive] at beyond
  omega

/-- The first `n` pieces cover the first `n * size` items. -/
theorem flatMap_range_pieces (xs : List α) (size n : Nat) :
    ((List.range n).flatMap fun i => (xs.drop (i * size)).take size) = xs.take (n * size) := by
  induction n with
  | zero => simp
  | succ n ih =>
    rw [List.range_succ, List.flatMap_append, ih, Nat.add_mul, Nat.one_mul, List.take_add]
    simp

theorem flatMap_finRange_pieces (xs : List α) (size n : Nat) :
    ((List.finRange n).flatMap fun i : Fin n => (xs.drop (i * size)).take size) =
      xs.take (n * size) := by
  rw [← flatMap_range_pieces, ← List.map_coe_finRange_eq_range, List.flatMap_map]

theorem flatMap_pieces (xs : List α) {size : Nat} (positive : 0 < size) :
    ((List.range (Size.divCeil xs.length size)).flatMap fun i => (xs.drop (i * size)).take size) =
      xs := by
  rw [flatMap_range_pieces, List.take_of_length_le (Size.le_divCeil_mul xs.length positive)]

/-- A list that is put together from pieces of one size has these pieces. -/
theorem piece_flatMap {β : Type} {f : β → List α} {size : Nat} {items : List β}
    (sizes : ∀ x ∈ items, (f x).length = size) {i : Nat} (bound : i < items.length) :
    ((items.flatMap f).drop (i * size)).take size = f items[i] := by
  induction items generalizing i with
  | nil => contradiction
  | cons x items ih =>
    obtain ⟨first, rest⟩ := List.forall_mem_cons.mp sizes
    cases i with
    | zero => simp [← first]
    | succ i =>
      have below : i < items.length := Nat.lt_of_succ_lt_succ bound
      rw [List.flatMap_cons, Nat.add_mul, Nat.one_mul, Nat.add_comm, ← List.drop_drop,
        List.drop_left' first, ih rest below, List.getElem_cons_succ]

end Pieces

end HexCover
