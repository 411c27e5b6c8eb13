import HexCover.Proofs.Pool
import HexCover.Proofs.Raster.Groups
import HexCover.Raster.Groups

/-! Merging groupings. Whichever set and whichever grouping is emptied into the other one, and in
whichever order, the result has the keys of both and, for each key, the cells of both. So
merging does not depend on the order of the groupings, on repetitions or on how they are
put into pairs. -/
namespace HexCover

namespace CellSet

theorem insertMany_of_perm {s t : CellSet} {cells : List CellId} (listed : cells.Perm t.toList) :
    s.insertMany cells = s ∪ t := by
  apply Std.ExtTreeSet.ext_mem
  intro cell
  rw [Std.ExtTreeSet.mem_insertMany_list, List.contains_iff_mem, listed.mem_iff,
    Std.ExtTreeSet.mem_toList, Std.ExtTreeSet.mem_union_iff]

theorem union_comm (s t : CellSet) : s ∪ t = t ∪ s := by
  apply Std.ExtTreeSet.ext_mem
  intro cell
  simp only [Std.ExtTreeSet.mem_union_iff, or_comm]

/-- The cells are those of both sets, whichever of them is emptied. -/
theorem unionWith_eq {list : CellSet → List CellId} (lists : ∀ s, (list s).Perm s.toList)
    (s t : CellSet) : s.unionWith list t = s ∪ t := by
  unfold unionWith
  split
  · rw [insertMany_of_perm (lists s), union_comm]
  · exact insertMany_of_perm (lists t)

end CellSet

namespace Raster.Groups

variable {ε : Type} {g h : Groups} {key : Key} {entry : Option CellId}

/-- A grouping has a key, or a cell of a key. -/
def Holds (g : Groups) (key : Key) : (entry : Option CellId) → Prop
  | none => key ∈ g
  | some cell => cell ∈ g.cells key

theorem ext_holds (same : ∀ key entry, g.Holds key entry ↔ h.Holds key entry) : g = h :=
  ext_cells (fun key => same key none) fun key cell => same key (some cell)

theorem not_holds_empty : ¬ Holds ∅ key entry := by
  cases entry with
  | none => exact Std.ExtTreeMap.not_mem_empty
  | some cell =>
    rw [Holds, cells_of_not_mem Std.ExtTreeMap.not_mem_empty]
    exact Std.ExtTreeSet.not_mem_empty

theorem holds_absorb : (absorb g h).Holds key entry ↔ g.Holds key entry ∨ h.Holds key entry := by
  cases entry with
  | none => exact mem_absorb
  | some cell => exact mem_cells_absorb

theorem holds_merge : (g.merge h).Holds key entry ↔ g.Holds key entry ∨ h.Holds key entry := by
  cases entry with
  | none => exact mem_merge
  | some cell => exact mem_cells_merge

section Laws

/-- Which grouping is emptied makes no difference. -/
theorem merge_eq_absorb (g h : Groups) : g.merge h = absorb g h :=
  ext_holds fun _ _ => holds_merge.trans holds_absorb.symm

theorem merge_comm (g h : Groups) : g.merge h = h.merge g := by
  apply ext_holds
  intro key entry
  rw [holds_merge, holds_merge, or_comm]

theorem merge_assoc (f g h : Groups) : (f.merge g).merge h = f.merge (g.merge h) := by
  apply ext_holds
  intro key entry
  rw [holds_merge, holds_merge, holds_merge, holds_merge, or_assoc]

theorem merge_self (g : Groups) : g.merge g = g := by
  apply ext_holds
  intro key entry
  rw [holds_merge, or_self]

theorem merge_empty (g : Groups) : g.merge ∅ = g := by
  apply ext_holds
  intro key entry
  rw [holds_merge, or_iff_left not_holds_empty]

theorem empty_merge (g : Groups) : merge ∅ g = g := by
  rw [merge_comm, merge_empty]

theorem cells_merge (g h : Groups) (key : Key) :
    (g.merge h).cells key = g.cells key ∪ h.cells key := by
  apply Std.ExtTreeSet.ext_mem
  intro cell
  rw [mem_cells_merge, Std.ExtTreeSet.mem_union_iff]

end Laws

section Steps

theorem takeGroup_eq (order : Traversal) (g : Groups) (part : Key × CellSet) :
    g.takeGroup order part = g.addCells part.1 part.2 := by
  apply Std.ExtTreeMap.ext_getElem?
  intro key
  rw [addCells, Std.ExtTreeMap.getElem?_alter, takeGroup]
  cases found : g[part.1]? with
  | none =>
    have whole : (∅ : CellSet) ∪ part.2 = part.2 := by
      apply Std.ExtTreeSet.ext_mem
      simp
    simp only [Std.ExtTreeMap.getElem?_insert, Option.getD_none, whole]
  | some present =>
    simp only [Std.ExtTreeMap.getElem?_insert, Option.getD_some,
      CellSet.unionWith_eq (order.cells_perm part.1)]

/-- The order in which groups come makes no difference. -/
theorem takeAll_eq (order : Traversal) (g h : Groups) : takeAll order g h = g.merge h := by
  have step : takeGroup order = fun g part => g.addCells part.1 part.2 := by
    funext g part
    exact takeGroup_eq order g part
  rw [merge_eq_absorb, takeAll, step, absorb, Std.ExtTreeMap.foldl_eq_foldl_toList]
  apply ext_cells
  · intro key
    simp only [mem_foldl_addCells, (order.groups_perm h).mem_iff]
  · intro key cell
    simp only [mem_cells_foldl_addCells, (order.groups_perm h).mem_iff]

theorem mergeStepwise_eq (order : Traversal) : mergeStepwise order = merge := by
  funext g h
  rw [mergeStepwise, takeAll_eq, takeAll_eq, merge_comm h g, ite_self]

end Steps

section Reduction

variable {maps others : List Groups}

def mergeAll (maps : List Groups) : Groups := maps.foldl merge ∅

theorem holds_foldl_merge : (maps.foldl merge g).Holds key entry ↔
    g.Holds key entry ∨ ∃ m ∈ maps, m.Holds key entry := by
  induction maps generalizing g with
  | nil => simp
  | cons first maps ih =>
    rw [List.foldl_cons, ih, holds_merge]
    simp only [List.exists_mem_cons_iff, or_assoc]

theorem holds_mergeAll (entry : Option CellId) :
    (mergeAll maps).Holds key entry ↔ ∃ m ∈ maps, m.Holds key entry := by
  rw [mergeAll, holds_foldl_merge, or_iff_right not_holds_empty]

/-- Neither order nor repetitions matter. -/
theorem mergeAll_congr (same : ∀ m, m ∈ maps ↔ m ∈ others) : mergeAll maps = mergeAll others := by
  apply ext_holds
  intro key entry
  simp only [holds_mergeAll, same]

theorem concatenates_mergeAll : Concatenates mergeAll ∅ merge := by
  refine ⟨rfl, fun maps others => ext_holds fun key entry => ?_⟩
  simp only [holds_merge, holds_mergeAll, List.mem_append, or_and_right, exists_or]

/-- Any plan that takes every grouping of a list merges all of them. -/
theorem run_merge {plan : Plan} (takes : ∀ i, i ∈ plan.parts ↔ i < maps.length) :
    plan.run ∅ merge (fun i => (.ok (maps.getD i ∅) : Except ε Groups)) = .ok (mergeAll maps) := by
  have single (i : Nat) : maps.getD i ∅ = mergeAll [maps.getD i ∅] := (empty_merge _).symm
  have found {i : Nat} (bound : i < maps.length) : maps.getD i ∅ = maps[i] := by
    rw [List.getD_eq_getElem?_getD, List.getElem?_eq_getElem bound, Option.getD_some]
  rw [Plan.run_eq_ok concatenates_mergeAll fun i _ => congrArg Except.ok (single i)]
  congr 1
  apply mergeAll_congr
  intro m
  simp only [List.mem_flatMap, takes, List.mem_singleton]
  constructor
  · rintro ⟨i, bound, rfl⟩
    rw [found bound]
    exact List.getElem_mem bound
  · intro member
    obtain ⟨i, bound, rfl⟩ := List.getElem_of_mem member
    exact ⟨i, bound, (found bound).symm⟩

end Reduction

/-- Merging step by step is merging, in whichever order the groups and their cells come and
whichever side is emptied, down to the sets of cells of single groups. The keys are those of
either grouping and the cells of a key are its cells in either, so that merging is commutative,
associative and idempotent and the empty grouping changes nothing. Any plan that takes every
grouping of a list has the result of merging them one after the other, whatever its order and
its pairs: the keys and the cells of all of them. -/
theorem merge_unites :
    (∀ (order : Traversal) (g h : Groups), mergeStepwise order g h = g.merge h ∧
      takeAll order g h = g.merge h ∧ takeAll order h g = g.merge h) ∧
    (∀ list : CellSet → List CellId, (∀ s, (list s).Perm s.toList) → ∀ s t : CellSet,
      s.unionWith list t = s ∪ t ∧ s.insertMany (list t) = s ∪ t ∧
        t.insertMany (list s) = s ∪ t) ∧
    (∀ (g h : Groups) (key : Key), (key ∈ g.merge h ↔ key ∈ g ∨ key ∈ h) ∧
      (g.merge h).cells key = g.cells key ∪ h.cells key) ∧
    (∀ g h : Groups, g.merge h = h.merge g) ∧
    (∀ f g h : Groups, (f.merge g).merge h = f.merge (g.merge h)) ∧
    (∀ g : Groups, g.merge g = g) ∧
    (∀ g : Groups, g.merge ∅ = g ∧ merge ∅ g = g) ∧
    ∀ (order : Traversal) (maps : List Groups) (plan : Plan),
      (∀ i, i ∈ plan.parts ↔ i < maps.length) →
      plan.run ∅ (mergeStepwise order) (fun i => (.ok (maps.getD i ∅) : Except Empty Groups)) =
        .ok (maps.foldl merge ∅) ∧
      ∀ key, (key ∈ maps.foldl merge ∅ ↔ ∃ m ∈ maps, key ∈ m) ∧
        ∀ cell, cell ∈ (maps.foldl merge ∅).cells key ↔ ∃ m ∈ maps, cell ∈ m.cells key := by
  refine ⟨fun order g h => ?_, fun list lists s t => ?_,
    fun g h key => ⟨mem_merge, cells_merge g h key⟩, merge_comm, merge_assoc, merge_self,
    fun g => ⟨merge_empty g, empty_merge g⟩, fun order maps plan takes => ⟨?_, fun key => ?_⟩⟩
  · rw [mergeStepwise_eq, takeAll_eq, takeAll_eq, merge_comm h g]
    exact ⟨rfl, rfl, rfl⟩
  · rw [CellSet.unionWith_eq lists, CellSet.insertMany_of_perm (lists t),
      CellSet.insertMany_of_perm (lists s), CellSet.union_comm t s]
    exact ⟨rfl, rfl, rfl⟩
  · rw [mergeStepwise_eq, run_merge takes, mergeAll]
  · exact ⟨holds_mergeAll none, fun cell => holds_mergeAll (some cell)⟩

/-- What is emptied comes from its end. -/
def backward : Traversal where
  groups g := g.toList.reverse
  cells _ s := s.toList.reverse
  groups_perm _ := List.reverse_perm _
  cells_perm _ _ := List.reverse_perm _

def seven : Key := Pixel.key (7 : Pixel .uint8)

def nine : Key := Pixel.key (9 : Pixel .uint8)

/-- One key with two cells, and two keys, the first of which is the same with three cells: both
the grouping and the set of cells that come first are emptied. The plan takes the second
grouping first, and it takes it twice. -/
theorem merge_unites_sevens :
    let few := ofPairs [(seven, ⟨1⟩), (seven, ⟨2⟩)]
    let many := ofPairs [(seven, ⟨2⟩), (nine, ⟨4⟩), (seven, ⟨5⟩), (seven, ⟨6⟩)]
    few.size < many.size ∧ (few.cells seven).size < (many.cells seven).size ∧
      mergeStepwise backward few many = few.merge many ∧
      ((few.merge many).cells seven).toList = [⟨1⟩, ⟨2⟩, ⟨5⟩, ⟨6⟩] ∧
      (Plan.join true (.part 1) (.join false (.join false .nothing (.part 0)) (.part 1))).run ∅
        (mergeStepwise backward) (fun i => (.ok ([few, many].getD i ∅) : Except Empty Groups)) =
          .ok ([few, many].foldl merge ∅) := by
  intro few many
  obtain ⟨steps, _, _, _, _, _, _, plans⟩ := merge_unites
  refine ⟨by decide +kernel, by decide +kernel, (steps backward few many).1, by decide +kernel,
    (plans backward [few, many] _ fun i => ?_).1⟩
  have takes : i ∈ [1, 0, 1] ↔ i < 2 := by
    simp
    omega
  exact takes

end Raster.Groups

end HexCover
