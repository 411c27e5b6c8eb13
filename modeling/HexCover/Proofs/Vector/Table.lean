import HexCover.Proofs.Vector.Convert
import HexCover.Vector.Table
import Mathlib.Data.List.Nodup

/-! Tables of records and cells. The identifiers of a table are the positions of its
records, so no two are equal and the index of the records leads from the identifier of
every pair back to the record that the pair came from, also where records are equal. The
join then gives back the pairs with records in place of identifiers. -/
namespace HexCover.Vector

variable {ρ : Type}

section Index

theorem addRecord_eq_ok {index : RecordIndex ρ} {entry : UInt64 × ρ} (fresh : entry.1 ∉ index) :
    addRecord index entry = .ok (index.insert entry.1 entry.2) := by
  rw [addRecord, if_neg]
  rwa [Std.ExtTreeMap.contains_iff_mem]

/-- Entries with identifiers that differ from each other and are not there yet are all
added. -/
theorem foldlM_addRecord {entries : List (UInt64 × ρ)} (distinct : (entries.map Prod.fst).Nodup)
    {index : RecordIndex ρ} (fresh : ∀ id ∈ entries.map Prod.fst, id ∉ index) :
    entries.foldlM addRecord index = .ok (index.insertMany entries) := by
  induction entries generalizing index with
  | nil => rfl
  | cons entry entries ih =>
    -- what is left stays new to the index after the first entry is added
    obtain ⟨new, distinct⟩ := List.nodup_cons.mp distinct
    have still : ∀ id ∈ entries.map Prod.fst, id ∉ index.insert entry.1 entry.2 := by
      intro id member present
      rcases Std.ExtTreeMap.mem_insert.mp present with same | before
      · exact new (Std.LawfulEqCmp.eq_of_compare same ▸ member)
      · exact fresh id (List.mem_cons_of_mem _ member) before
    rw [List.foldlM_cons, addRecord_eq_ok (fresh _ List.mem_cons_self),
      Std.ExtTreeMap.insertMany_cons]
    exact ih distinct still

/-- With identifiers that differ from each other the records are joined with all pairs. -/
theorem join_eq_ok {records : List ρ} {ids : List UInt64} (same : records.length = ids.length)
    (distinct : ids.Nodup) (pairs : Pairs) :
    join records ids pairs = .ok (pairs.filterMap fun (id, cell) =>
      (Std.ExtTreeMap.ofList (ids.zip records) : RecordIndex ρ)[id]?.map fun record =>
        ⟨record, cell⟩) := by
  have keys : (ids.zip records).map Prod.fst = ids := List.map_fst_zip same.ge
  have built : (ids.zip records).foldlM addRecord (∅ : RecordIndex ρ) =
      .ok (.ofList (ids.zip records)) := by
    rw [Std.ExtTreeMap.ofList_eq_insertMany_empty]
    exact foldlM_addRecord (by rwa [keys]) fun _ _ => Std.ExtTreeMap.not_mem_empty
  simp only [join, same, ne_eq, not_true_eq_false, if_false, built]
  rfl

theorem getElem?_ofList_of_mem {entries : List (UInt64 × ρ)}
    (distinct : (entries.map Prod.fst).Nodup) {id : UInt64} {record : ρ}
    (member : (id, record) ∈ entries) :
    (Std.ExtTreeMap.ofList entries : RecordIndex ρ)[id]? = some record := by
  refine Std.ExtTreeMap.getElem?_ofList_of_mem Std.ReflCmp.compare_self ?_ member
  refine (List.pairwise_map.mp distinct).imp fun different same => different ?_
  exact Std.LawfulEqCmp.eq_of_compare same

end Index

section Positions

@[simp]
theorem length_positionIds (n : Nat) : (positionIds n).length = n := by simp [positionIds]

theorem nodup_positionIds {n : Nat} (bounded : n < Size.bound) : (positionIds n).Nodup := by
  refine List.Nodup.map_on (fun i hi j hj same => ?_) List.nodup_range
  have small (k : Nat) (h : k ∈ List.range n) : (UInt64.ofNat k).toNat = k := by
    have below : k < 2 ^ 64 := (List.mem_range.mp h).trans bounded
    rw [UInt64.toNat_ofNat', Nat.mod_eq_of_lt below]
  rw [← small i hi, same, small j hj]

theorem zipWith_positionIds (records : List ρ) (geometry : ρ → List UInt8) :
    (positionIds records.length).zipWith Record.mk (records.map geometry) =
      records.zipIdx.map fun x => ⟨UInt64.ofNat x.2, geometry x.1⟩ := by
  apply List.ext_getElem
  · simp [positionIds]
  · intro i _ _
    simp [positionIds]

theorem zip_positionIds (records : List ρ) :
    (positionIds records.length).zip records =
      records.zipIdx.map fun x => (UInt64.ofNat x.2, x.1) := by
  apply List.ext_getElem
  · simp [positionIds]
  · intro i _ _
    simp [positionIds]

theorem join_positionIds {records : List ρ} (bounded : records.length < Size.bound)
    (cells : ρ × Nat → List CellId) :
    join records (positionIds records.length)
        (records.zipIdx.flatMap fun x => (cells x).map fun cell => (UInt64.ofNat x.2, cell)) =
      .ok (records.zipIdx.flatMap fun x => (cells x).map (Row.mk x.1)) := by
  have length := (length_positionIds records.length).symm
  have distinct := nodup_positionIds bounded
  rw [join_eq_ok length distinct, List.filterMap_flatMap]
  refine congrArg Except.ok (List.flatMap_congr fun x member => ?_)
  -- the index leads from a position back to the record that stands there
  have found : (Std.ExtTreeMap.ofList ((positionIds records.length).zip records) :
      RecordIndex ρ)[UInt64.ofNat x.2]? = some x.1 := by
    apply getElem?_ofList_of_mem
    · rwa [List.map_fst_zip length.ge]
    · rw [zip_positionIds]
      exact List.mem_map_of_mem member
  rw [List.filterMap_map]
  simp [found]

end Positions

namespace Converter

def cellsAt (c : Converter) (geometry : ρ → List UInt8) (resolution : Nat) (compacted : Bool)
    (x : ρ × Nat) : Except ConversionError (List CellId) :=
  c.indexer.convert (UInt64.ofNat x.2) (geometry x.1) resolution compacted

section

variable (c : Converter) (sized : 0 < c.config.chunkSize) {records : List ρ}
  (bounded : records.length < Size.bound) (geometry : ρ → List UInt8) {resolution : Nat}
  (valid : resolution ≤ 15) {compacted : Bool}
include sized bounded valid

/-- With positions for identifiers the pairs are those of the records in order. -/
theorem pairs_positionIds (cells : ρ × Nat → List CellId)
    (good : ∀ x ∈ records.zipIdx, c.cellsAt geometry resolution compacted x = .ok (cells x)) :
    c.pairs (positionIds records.length) (records.map geometry) resolution compacted =
      .ok (records.zipIdx.flatMap fun x =>
        (cells x).map fun cell => (UInt64.ofNat x.2, cell)) := by
  have converted : ∀ r ∈ (positionIds records.length).zipWith Record.mk (records.map geometry),
      c.cells resolution compacted r =
        .ok ((c.cells resolution compacted r).toOption.getD []) := by
    rw [zipWith_positionIds]
    intro r member
    obtain ⟨x, inside, rfl⟩ := List.mem_map.mp member
    have run : c.cells resolution compacted ⟨UInt64.ofNat x.2, geometry x.1⟩ = .ok (cells x) :=
      good x inside
    rw [run]
    rfl
  have run := c.pairs_eq_ok sized (by rwa [length_positionIds]) valid (by simp) _ converted
  rw [run, zipWith_positionIds, List.flatMap_map]
  refine congrArg Except.ok (List.flatMap_congr fun x member => ?_)
  have found : c.cells resolution compacted ⟨UInt64.ofNat x.2, geometry x.1⟩ = .ok (cells x) :=
    good x member
  rw [found]
  rfl

/-- A failing conversion reports what some record failed with. -/
theorem exists_pairs_positionIds_eq_error {x : ρ × Nat} (member : x ∈ records.zipIdx)
    {e : ConversionError} (failed : c.cellsAt geometry resolution compacted x = .error e) :
    ∃ x ∈ records.zipIdx, ∃ e, c.cellsAt geometry resolution compacted x = .error e ∧
      c.pairs (positionIds records.length) (records.map geometry) resolution compacted =
        .error e := by
  have listed : (⟨UInt64.ofNat x.2, geometry x.1⟩ : Record) ∈
      (positionIds records.length).zipWith Record.mk (records.map geometry) := by
    rw [zipWith_positionIds]
    exact List.mem_map_of_mem member
  obtain ⟨index, e', outcome, first⟩ := c.pairs_eq_error_of_record sized
    (by rwa [length_positionIds]) valid (by simp) listed failed
  obtain ⟨r, inside, failed'⟩ := first.fails
  have listed' := List.mem_of_mem_drop (List.mem_of_mem_take inside)
  rw [zipWith_positionIds] at listed'
  obtain ⟨x', member', rfl⟩ := List.mem_map.mp listed'
  exact ⟨x', member', e', failed', outcome⟩

end

/-- A table is the inner join of records and their cells, in the order of the records and
of the cells of each. It fails exactly when a record cannot be converted, and then with the
failure of such a record. The join finds every pair's record and has no way to fail. -/
theorem table_inner_join (c : Converter) (sized : 0 < c.config.chunkSize) (records : List ρ)
    (bounded : records.length < Size.bound) (geometry : ρ → List UInt8) (resolution : Nat)
    (valid : resolution ≤ 15) (compacted : Bool) :
    (∀ cells : ρ × Nat → List CellId,
      (∀ x ∈ records.zipIdx, c.cellsAt geometry resolution compacted x = .ok (cells x)) →
      c.table records geometry resolution compacted =
        .ok (records.zipIdx.flatMap fun x => (cells x).map (Row.mk x.1))) ∧
    ((∃ x ∈ records.zipIdx, ∃ e, c.cellsAt geometry resolution compacted x = .error e) →
      ∃ x ∈ records.zipIdx, ∃ e, c.cellsAt geometry resolution compacted x = .error e ∧
        c.table records geometry resolution compacted = .error e) ∧
    ∀ found, c.pairs (positionIds records.length) (records.map geometry) resolution compacted =
        .ok found →
      ∃ rows, join records (positionIds records.length) found = .ok rows ∧
        rows.length = found.length := by
  refine ⟨fun cells good => ?_, ?_, fun found run => ?_⟩
  · have pairs := c.pairs_positionIds sized bounded geometry valid cells good
    have joined := join_positionIds bounded cells
    exact bind_eq_ok_iff.mpr ⟨_, pairs, joined⟩
  · rintro ⟨x, member, e, failed⟩
    obtain ⟨x, member, e, failed, outcome⟩ :=
      c.exists_pairs_positionIds_eq_error sized bounded geometry valid member failed
    refine ⟨x, member, e, failed, ?_⟩
    rw [table, outcome]
    rfl
  · obtain good | ⟨e, first⟩ :=
      forall_ok_or_firstFailure (c.cellsAt geometry resolution compacted) records.zipIdx
    · obtain ⟨cells, converted⟩ := exists_values good
      have pairs := c.pairs_positionIds sized bounded geometry valid cells converted
      obtain rfl := Except.ok.inj (pairs.symm.trans run)
      exact ⟨_, join_positionIds bounded _, by simp⟩
    · obtain ⟨x, member, failed⟩ := first.fails
      obtain ⟨_, _, e', _, outcome⟩ :=
        c.exists_pairs_positionIds_eq_error sized bounded geometry valid member failed
      simp [run] at outcome

/-- Two equal records around one without cells, and a record that cannot be converted. -/
theorem table_inner_join_toy :
    (mk Toy.indexer { chunkSize := 2 } (.build 1 0)).table [[2], [], [2]] id 3 false =
        .ok [⟨[2], Toy.recordCell 0 3 0⟩, ⟨[2], Toy.recordCell 0 3 1⟩,
          ⟨[2], Toy.recordCell 2 3 0⟩, ⟨[2], Toy.recordCell 2 3 1⟩] ∧
      ∃ e, (mk Toy.indexer { chunkSize := 2 } (.build 1 0)).table [[2], [255]] id 3 false =
        .error e := by
  constructor
  · refine (table_inner_join (mk Toy.indexer { chunkSize := 2 } (.build 1 0)) (by decide)
      [[2], [], [2]] (by decide) id 3 (by decide) false).1
      (fun x => (List.range (x.1.headD 0).toNat).map (Toy.recordCell (UInt64.ofNat x.2) 3)) ?_
    intro x member
    simp only [List.zipIdx, List.mem_cons, List.not_mem_nil, or_false] at member
    rcases member with rfl | rfl | rfl <;> rfl
  · obtain ⟨_, _, e, _, outcome⟩ := (table_inner_join
      (mk Toy.indexer { chunkSize := 2 } (.build 1 0)) (by decide) [[2], [255]] (by decide) id 3
      (by decide) false).2.1 ⟨([255], 1), by decide, _, rfl⟩
    exact ⟨e, outcome⟩

end Converter

end HexCover.Vector
