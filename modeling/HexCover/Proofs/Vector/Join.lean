import HexCover.Proofs.Vector.Table
import HexCover.Vector.Table
import Mathlib.Data.Nat.Find

/-! The join is the inner join. The index holds the identifiers seen so far, each with what
stands beside it, as long as they differ; the first one that is there already ends the
join, whatever the pairs are. After all of them an identifier leads to the record at its
position, and there is one, so that no row looks behind the records. -/
namespace HexCover.Vector

/-- `j` is the first position whose identifier stands at an earlier position, too. -/
structure FirstRepeat (ids : List UInt64) (j : Nat) (id : UInt64) : Prop where
  here : ids[j]? = some id
  before : ∃ i < j, ids[i]? = some id
  least : ∀ k < j, ∀ i < k, ids[i]? ≠ ids[k]?

/-- The row of a pair has the record at the position where its identifier stands. -/
def Joined {ρ : Type} (records : List ρ) (ids : List UInt64) (pair : UInt64 × CellId)
    (row : Row ρ) : Prop :=
  ∃ p : Nat, ids[p]? = some pair.1 ∧ records[p]? = some row.record ∧ row.cell = pair.2

section Repeats

variable {ids : List UInt64} {j : Nat} {id : UInt64}

theorem FirstRepeat.lt_length (h : FirstRepeat ids j id) : j < ids.length :=
  (List.getElem?_eq_some_iff.mp h.here).1

theorem FirstRepeat.nodup_take (h : FirstRepeat ids j id) : (ids.take j).Nodup := by
  rw [List.nodup_iff_getElem?_ne_getElem?]
  intro i k less inside
  have below : k < j := by
    rw [List.length_take] at inside
    omega
  rw [List.getElem?_take_of_lt below, List.getElem?_take_of_lt (less.trans below)]
  exact h.least k below i less

theorem FirstRepeat.mem_take (h : FirstRepeat ids j id) : id ∈ ids.take j := by
  obtain ⟨i, less, same⟩ := h.before
  rw [List.mem_iff_getElem?]
  exact ⟨i, by rwa [List.getElem?_take_of_lt less]⟩

/-- Identifiers that do not all differ have a first repeat. -/
theorem exists_firstRepeat (h : ¬ ids.Nodup) : ∃ j id, FirstRepeat ids j id := by
  have repeats : ∃ k, k < ids.length ∧ ∃ i < k, ids[i]? = ids[k]? := by
    rw [List.nodup_iff_getElem?_ne_getElem?] at h
    push Not at h
    obtain ⟨i, k, less, inside, same⟩ := h
    exact ⟨k, inside, i, less, same⟩
  classical
  obtain ⟨inside, i, less, same⟩ := Nat.find_spec repeats
  refine ⟨Nat.find repeats, ids[Nat.find repeats], List.getElem?_eq_getElem inside,
    ⟨i, less, same.trans (List.getElem?_eq_getElem inside)⟩, ?_⟩
  intro k below i less same
  exact Nat.find_min repeats below ⟨below.trans inside, i, less, same⟩

end Repeats

section Index

variable {ν : Type} {entries : List (UInt64 × ν)}

/-- The first repeated identifier ends the building of an index. -/
theorem foldlM_addRecord_eq_error {j : Nat} {id : UInt64}
    (first : FirstRepeat (entries.map Prod.fst) j id) :
    entries.foldlM addRecord (∅ : RecordIndex ν) = .error (.duplicateSurrogateId id) := by
  have inside : j < entries.length := by simpa using first.lt_length
  have key : entries[j].1 = id := by simpa [inside] using first.here
  -- the entries before it differ, so all of them have been added
  have before : (entries.take j).foldlM addRecord (∅ : RecordIndex ν) =
      .ok ((∅ : RecordIndex ν).insertMany (entries.take j)) := by
    refine foldlM_addRecord ?_ fun _ _ => Std.ExtTreeMap.not_mem_empty
    rw [List.map_take]
    exact first.nodup_take
  have there : id ∈ (∅ : RecordIndex ν).insertMany (entries.take j) := by
    rw [Std.ExtTreeMap.mem_insertMany_list, List.map_take, List.contains_iff_mem]
    exact .inr first.mem_take
  have refused : addRecord ((∅ : RecordIndex ν).insertMany (entries.take j)) entries[j] =
      .error (.duplicateSurrogateId id) := by
    rw [addRecord, key, if_pos (Std.ExtTreeMap.contains_iff_mem.mpr there)]
  have cut : entries = entries.take j ++ entries[j] :: entries.drop (j + 1) := by
    rw [← List.drop_eq_getElem_cons inside, List.take_append_drop]
  rw [cut, List.foldlM_append, before]
  change (List.foldlM addRecord _ (entries[j] :: entries.drop (j + 1))) = _
  rw [List.foldlM_cons, refused]
  rfl

theorem getElem?_ofList_eq_none_iff {id : UInt64} :
    (Std.ExtTreeMap.ofList entries : RecordIndex ν)[id]? = none ↔ id ∉ entries.map Prod.fst := by
  have there : (Std.ExtTreeMap.ofList entries : RecordIndex ν)[id]?.isSome ↔
      id ∈ entries.map Prod.fst := by
    rw [Std.ExtTreeMap.isSome_getElem?_iff_mem, Std.ExtTreeMap.mem_ofList, List.contains_iff_mem]
  rw [← there, Option.not_isSome_iff_eq_none]

/-- Under identifiers that differ the index holds what stands beside each of them. -/
theorem getElem?_ofList_eq_some_iff (distinct : (entries.map Prod.fst).Nodup) {id : UInt64}
    {value : ν} : (Std.ExtTreeMap.ofList entries : RecordIndex ν)[id]? = some value ↔
      (id, value) ∈ entries := by
  refine ⟨fun found => ?_, getElem?_ofList_of_mem distinct⟩
  have key : id ∈ entries.map Prod.fst := by
    by_contra absent
    rw [getElem?_ofList_eq_none_iff.mpr absent] at found
    cases found
  obtain ⟨⟨id', value'⟩, member, rfl⟩ := List.mem_map.mp key
  rw [getElem?_ofList_of_mem distinct member] at found
  exact Option.some.inj found ▸ member

end Index

section Rows

variable {ρ : Type} {records : List ρ} {ids : List UInt64} {id : UInt64}

/-- Where an identifier stands there is a record. -/
theorem exists_record (same : records.length = ids.length) (known : id ∈ ids) :
    ∃ (p : Nat) (record : ρ), ids[p]? = some id ∧ records[p]? = some record := by
  obtain ⟨p, stands⟩ := List.mem_iff_getElem?.mp known
  have inside : p < records.length := same ▸ (List.getElem?_eq_some_iff.mp stands).1
  exact ⟨p, records[p], stands, List.getElem?_eq_getElem inside⟩

def rowIn (records : List ρ) (ids : List UInt64) (pair : UInt64 × CellId) : Option (Row ρ) :=
  (Std.ExtTreeMap.ofList (ids.zip records) : RecordIndex ρ)[pair.1]?.map fun record =>
    ⟨record, pair.2⟩

variable (same : records.length = ids.length)
include same

theorem rowIn_of_not_mem {pair : UInt64 × CellId} (unknown : pair.1 ∉ ids) :
    rowIn records ids pair = none := by
  rw [rowIn, getElem?_ofList_eq_none_iff.mpr (by rwa [List.map_fst_zip same.ge])]
  rfl

variable (distinct : ids.Nodup)
include distinct

theorem rowIn_of_stands {pair : UInt64 × CellId} {p : Nat} {record : ρ}
    (stands : ids[p]? = some pair.1) (taken : records[p]? = some record) :
    rowIn records ids pair = some ⟨record, pair.2⟩ := by
  have member : (pair.1, record) ∈ ids.zip records :=
    List.mem_iff_getElem?.mpr ⟨p, List.getElem?_zip_eq_some.mpr ⟨stands, taken⟩⟩
  have keys : ((ids.zip records).map Prod.fst).Nodup := by rwa [List.map_fst_zip same.ge]
  rw [rowIn, (getElem?_ofList_eq_some_iff keys).mpr member]
  rfl

/-- A row that takes its record by position is the row in the index of records. -/
theorem rowAt_eq_ok (pair : UInt64 × CellId) :
    rowAt records (.ofList ids.zipIdx) pair = .ok (rowIn records ids pair) := by
  unfold rowAt
  by_cases known : pair.1 ∈ ids
  · obtain ⟨p, record, stands, taken⟩ := exists_record same known
    have found : (Std.ExtTreeMap.ofList ids.zipIdx : RecordIndex Nat)[pair.1]? = some p := by
      rw [getElem?_ofList_eq_some_iff (by rwa [List.zipIdx_map_fst]),
        List.mem_zipIdx_iff_getElem?]
      exact stands
    simp only [found, taken, rowIn_of_stands same distinct stands taken]
  · have absent : (Std.ExtTreeMap.ofList ids.zipIdx : RecordIndex Nat)[pair.1]? = none := by
      rwa [getElem?_ofList_eq_none_iff, List.zipIdx_map_fst]
    simp only [absent, rowIn_of_not_mem same known]

/-- The pairs whose identifier occurs have one row each, and the others have none. -/
theorem forall₂_joined (pairs : Pairs) :
    List.Forall₂ (Joined records ids) (pairs.filter fun pair => pair.1 ∈ ids)
      (pairs.filterMap (rowIn records ids)) := by
  induction pairs with
  | nil => exact .nil
  | cons pair pairs ih =>
    by_cases known : pair.1 ∈ ids
    · obtain ⟨p, record, stands, taken⟩ := exists_record same known
      rw [List.filter_cons_of_pos (by simpa using known), List.filterMap_cons,
        rowIn_of_stands same distinct stands taken]
      exact .cons ⟨p, stands, taken, rfl⟩ ih
    · rw [List.filter_cons_of_neg (by simpa using known), List.filterMap_cons,
        rowIn_of_not_mem same known]
      exact ih

end Rows

section Join

variable {ρ : Type} {records : List ρ} {ids : List UInt64}

theorem join_of_length_ne (h : records.length ≠ ids.length) (pairs : Pairs) :
    join records ids pairs = .error (.lengthMismatch ids.length records.length) := by
  rw [join, if_pos h]
  rfl

theorem join_of_firstRepeat (same : records.length = ids.length) {j : Nat} {id : UInt64}
    (first : FirstRepeat ids j id) (pairs : Pairs) :
    join records ids pairs = .error (.duplicateSurrogateId id) := by
  have refused : (ids.zip records).foldlM addRecord (∅ : RecordIndex ρ) = _ :=
    foldlM_addRecord_eq_error (by rwa [List.map_fst_zip same.ge])
  rw [join, if_neg (not_not.mpr same), refused]
  rfl

theorem join_of_nodup (same : records.length = ids.length) (distinct : ids.Nodup)
    (pairs : Pairs) : join records ids pairs = .ok (pairs.filterMap (rowIn records ids)) :=
  join_eq_ok same distinct pairs

/-- Taking the records by position is the same join, and never looks behind them. -/
theorem joinByPosition_eq (records : List ρ) (ids : List UInt64) (pairs : Pairs) :
    joinByPosition records ids pairs = (join records ids pairs).mapError .failure := by
  by_cases same : records.length = ids.length
  · by_cases distinct : ids.Nodup
    · have built : ids.zipIdx.foldlM addRecord (∅ : RecordIndex Nat) =
          .ok (.ofList ids.zipIdx) := by
        rw [Std.ExtTreeMap.ofList_eq_insertMany_empty]
        exact foldlM_addRecord (by rwa [List.zipIdx_map_fst]) fun _ _ =>
          Std.ExtTreeMap.not_mem_empty
      have rows := filterMapM_eq_ok fun pair (_ : pair ∈ pairs) => rowAt_eq_ok same distinct pair
      rw [join_of_nodup same distinct, joinByPosition, if_neg (not_not.mpr same), built]
      exact rows
    · obtain ⟨j, id, first⟩ := exists_firstRepeat distinct
      have refused : ids.zipIdx.foldlM addRecord (∅ : RecordIndex Nat) = _ :=
        foldlM_addRecord_eq_error (by rwa [List.zipIdx_map_fst])
      rw [join_of_firstRepeat same first, joinByPosition, if_neg (not_not.mpr same), refused]
      rfl
  · rw [join_of_length_ne same, joinByPosition, if_pos same]
    rfl

/-- The join is the inner join. It is refused for lists of different lengths, then for the
first repeated identifier, and for nothing else. Otherwise it has one row for every pair
whose identifier occurs, in the order of the pairs, with the record at the position of
the identifier; and no position is behind the records. -/
theorem join_inner (records : List ρ) (ids : List UInt64) (pairs : Pairs) :
    (records.length ≠ ids.length →
      join records ids pairs = .error (.lengthMismatch ids.length records.length)) ∧
    (records.length = ids.length → ¬ ids.Nodup → ∃ j id, FirstRepeat ids j id ∧
      join records ids pairs = .error (.duplicateSurrogateId id)) ∧
    (records.length = ids.length → ids.Nodup → ∃ rows, join records ids pairs = .ok rows ∧
      List.Forall₂ (Joined records ids) (pairs.filter fun pair => pair.1 ∈ ids) rows) ∧
    joinByPosition records ids pairs = (join records ids pairs).mapError .failure := by
  refine ⟨fun different => join_of_length_ne different pairs, fun same repeated => ?_,
    fun same distinct => ?_, joinByPosition_eq records ids pairs⟩
  · obtain ⟨j, id, first⟩ := exists_firstRepeat repeated
    exact ⟨j, id, first, join_of_firstRepeat same first pairs⟩
  · exact ⟨_, join_of_nodup same distinct pairs, forall₂_joined same distinct pairs⟩

/-- Lists of two lengths, two repeated identifiers, and pairs out of order of which one has
an identifier that does not occur. -/
theorem join_inner_letters :
    join ["a"] [1, 2] [] = .error (.lengthMismatch 2 1) ∧
    (∃ j id, FirstRepeat [3, 4, 4, 3] j id ∧
      join ["a", "b", "c", "d"] [3, 4, 4, 3] [(3, ⟨1⟩)] = .error (.duplicateSurrogateId id)) ∧
    ∃ rows, join ["a", "b"] [7, 9] [(9, ⟨2⟩), (8, ⟨5⟩), (7, ⟨1⟩), (9, ⟨2⟩)] = .ok rows ∧
      List.Forall₂ (Joined ["a", "b"] [7, 9]) [(9, ⟨2⟩), (7, ⟨1⟩), (9, ⟨2⟩)] rows :=
  ⟨(join_inner ["a"] [1, 2] []).1 (by decide),
    (join_inner ["a", "b", "c", "d"] [3, 4, 4, 3] [(3, ⟨1⟩)]).2.1 rfl (by decide),
    (join_inner ["a", "b"] [7, 9] [(9, ⟨2⟩), (8, ⟨5⟩), (7, ⟨1⟩), (9, ⟨2⟩)]).2.2.1 rfl (by decide)⟩

end Join

end HexCover.Vector
