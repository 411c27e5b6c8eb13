import HexCover.Proofs.H3.Compaction
import HexCover.Proofs.H3.Cover
import HexCover.Proofs.Vector.Convert

/-! Compaction of batches. The cells that cover a geometry are cells of one resolution, so
they condense, and a record can be converted with compaction when it can be converted
without. Both conversions of a batch list their records in order; so they differ by
what the cells of each record, taken alone, condense to. -/
namespace HexCover

theorem CellSet.ofCells_toList (s : CellSet) : CellSet.ofCells s.toList = s := by
  apply Std.ExtTreeSet.ext_mem
  intro id
  rw [ofCells, Std.ExtTreeSet.mem_ofList, List.contains_iff_mem, Std.ExtTreeSet.mem_toList]

theorem CellSet.ascending_toList (s : CellSet) : s.toList.Pairwise fun a b => a.raw < b.raw := by
  refine s.ordered_toList.imp fun {a b} less => ?_
  exact Std.compare_eq_lt.mp less

namespace Vector

/-- The listed cells `kept` stand for the listed cells `found` of resolution `r`: both are
ascending without repetition, `found` condenses to `kept`, and expansion lists `found`
again. -/
structure Compacted (r : Nat) (found kept : List CellId) : Prop where
  found_ascending : found.Pairwise fun a b => a.raw < b.raw
  ascending : kept.Pairwise fun a b => a.raw < b.raw
  condenses : H3.Condenses r (.ofCells found) (.ofCells kept)
  expanded : (H3.uncompact (.ofCells kept) r).map (·.toList) = .ok found
  empty_iff : kept = [] ↔ found = []

theorem compacted_of_condenses {r : Nat} {s t : CellSet} (h : H3.Condenses r s t) :
    Compacted r s.toList t.toList where
  found_ascending := s.ascending_toList
  ascending := t.ascending_toList
  condenses := by rwa [CellSet.ofCells_toList, CellSet.ofCells_toList]
  expanded := by
    rw [CellSet.ofCells_toList, h.expanded]
    rfl
  empty_iff := by
    rw [Std.ExtTreeSet.toList_eq_nil_iff, Std.ExtTreeSet.toList_eq_nil_iff]
    exact h.eq_empty_iff

/-- Listed cells are kept or merged according to what else is listed. -/
theorem Compacted.mem_iff {r : Resolution} {cells : List H3.Cell} {kept : List CellId}
    (level : ∀ c ∈ cells, c.resolution = r.val) (h : Compacted r.val (cells.map H3.Cell.id) kept)
    {c : H3.Cell} :
    c.id ∈ kept ↔ c.resolution ≤ r.val ∧
      (∀ d ∈ c.descendants (r.val - c.resolution), d ∈ cells) ∧
      (c.resolution = 0 ∨
        ∃ d ∈ c.parent.descendants (r.val - c.parent.resolution), d ∉ cells) := by
  have members := H3.Condenses.mem_iff level h.condenses (c := c)
  rwa [CellSet.ofCells, Std.ExtTreeSet.mem_ofList, List.contains_iff_mem] at members

/-- The set of cells that a serialized geometry covers; an empty geometry covers none. -/
def coveredSet (cover : Resolution → Geometry Float → Except String (List CellId))
    (id : UInt64) (bytes : List UInt8) (resolution : Nat) : Except ConversionError CellSet := do
  let r ← Resolution.validate resolution
  match ← Wkb.decode id bytes with
  | none => return ∅
  | some g => match cover r (g.map Double.toFloat) with
    | .error text => throw (.invalidGeometry id text)
    | .ok cells => return .ofCells cells

section

variable {cover : Resolution → Geometry Float → Except String (List CellId)} {id : UInt64}
  {bytes : List UInt8} {r : Nat}

/-- Compaction comes after everything that can go wrong with a record. -/
theorem ofCover_eq {compact : CellSet → Except ConversionError CellSet}
    (neutral : compact ∅ = .ok ∅) (compacted : Bool) :
    (Indexer.ofCover cover compact).convert id bytes r compacted =
      coveredSet cover id bytes r >>= fun s =>
        (if compacted then compact s else .ok s).map (·.toList) := by
  simp only [Indexer.ofCover, coveredSet]
  cases Resolution.validate r with
  | error e => rfl
  | ok resolution =>
    cases Wkb.decode id bytes with
    | error e => rfl
    | ok decoded =>
      cases decoded with
      | none =>
        cases compacted with
        | false => rfl
        | true =>
          simp only [bind, Except.bind, pure, Except.pure, if_true, neutral]
          rfl
      | some g =>
        simp only [bind, Except.bind]
        cases cover resolution (g.map Double.toFloat) with
        | error text => rfl
        | ok cells =>
          cases compacted with
          | false => rfl
          | true =>
            cases run : compact (.ofCells cells) <;>
              simp [run, pure, Except.pure, Except.map]

variable (covered : ∀ r g cells, cover r g = .ok cells →
  ∀ id ∈ cells, H3.resolutionOf id = .ok r.val)
include covered

theorem exists_condenses {s : CellSet} (h : coveredSet cover id bytes r = .ok s) :
    ∃ t, H3.Condenses r s t := by
  obtain ⟨resolution, valid, rest⟩ := bind_eq_ok_iff.mp h
  -- a resolution that is none has failed before anything was covered
  have bound : r < 16 := by
    by_contra outside
    simp [Resolution.validate_of_ge (Nat.not_lt.mp outside)] at valid
  obtain rfl : ⟨r, bound⟩ = resolution :=
    Except.ok.inj ((Resolution.validate_of_lt bound).symm.trans valid)
  refine H3.exists_condenses (r := ⟨r, bound⟩) fun id member => ?_
  obtain ⟨decoded, _, found⟩ := bind_eq_ok_iff.mp rest
  split at found
  · obtain rfl := Except.ok.inj found
    simp at member
  · split at found
    · contradiction
    · next cells laid =>
      obtain rfl := Except.ok.inj found
      rw [CellSet.ofCells, Std.ExtTreeSet.mem_ofList, List.contains_iff_mem] at member
      exact covered _ _ _ laid _ member

theorem exists_ofCover_compacted {found : List CellId}
    (h : (Indexer.ofCover cover H3.compact).convert id bytes r false = .ok found) :
    ∃ kept, (Indexer.ofCover cover H3.compact).convert id bytes r true = .ok kept ∧
      Compacted r found kept := by
  rw [ofCover_eq H3.compact_empty] at h
  obtain ⟨s, read, listed⟩ := bind_eq_ok_iff.mp h
  obtain rfl := Except.ok.inj listed
  obtain ⟨t, condenses⟩ := exists_condenses covered read
  refine ⟨t.toList, ?_, compacted_of_condenses condenses⟩
  rw [ofCover_eq H3.compact_empty, read]
  exact map_eq_ok_iff.mpr ⟨t, condenses.compacted, rfl⟩

/-- Compaction adds no way for a record to fail. -/
theorem ofCover_eq_error_iff {e : ConversionError} :
    (Indexer.ofCover cover H3.compact).convert id bytes r true = .error e ↔
      (Indexer.ofCover cover H3.compact).convert id bytes r false = .error e := by
  rw [ofCover_eq H3.compact_empty, ofCover_eq H3.compact_empty]
  cases read : coveredSet cover id bytes r with
  | error e' => exact Iff.rfl
  | ok s =>
    obtain ⟨t, condenses⟩ := exists_condenses covered read
    simp [bind, Except.bind, Except.map, condenses.compacted]

/-- Compaction of batches loses nothing. A conversion with it fails when the conversion
without it does, on whatever workers either runs. Otherwise both list the records in their
order, and the cells of each record, with compaction, are what its own cells without it
condense to. -/
theorem Converter.pairs_compacted (config : Config) (pool pool' : WorkerPool) (ids : List UInt64)
    (geometries : List (List UInt8)) (bounded : ids.length < Size.bound) (r : Nat) :
    let leaves := (mk (.ofCover cover H3.compact) config pool).pairs ids geometries r false
    let compacted := (mk (.ofCover cover H3.compact) config pool').pairs ids geometries r true
    ((∃ e, compacted = .error e) ↔ ∃ e, leaves = .error e) ∧
      ∀ found kept, leaves = .ok found → compacted = .ok kept →
        ids.length = geometries.length ∧ ∃ foundIn keptIn : Record → List CellId,
          found = (ids.zipWith Record.mk geometries).flatMap
            (fun x => (foundIn x).map fun cell => (x.id, cell)) ∧
          kept = (ids.zipWith Record.mk geometries).flatMap
            (fun x => (keptIn x).map fun cell => (x.id, cell)) ∧
          ∀ x ∈ ids.zipWith Record.mk geometries,
            (Indexer.ofCover cover H3.compact).convert x.id x.geometry r false = .ok (foundIn x) ∧
            (Indexer.ofCover cover H3.compact).convert x.id x.geometry r true = .ok (keptIn x) ∧
            Compacted r (foundIn x) (keptIn x) := by
  intro leaves compacted
  by_cases sized : 0 < config.chunkSize
  · constructor
    · have fails (x : Record) (e : ConversionError) :
          (mk (.ofCover cover H3.compact) config pool').cells r true x = .error e ↔
            (mk (.ofCover cover H3.compact) config pool).cells r false x = .error e :=
        ofCover_eq_error_iff covered
      refine (exists_pairs_eq_error_iff (mk _ config pool') sized bounded).trans (Iff.trans ?_
        (exists_pairs_eq_error_iff (mk _ config pool) sized bounded).symm)
      simp only [fails]
    · intro found kept run run'
      obtain ⟨same, foundIn, leaf, listed⟩ := exists_cells_of_pairs_eq_ok sized bounded run
      obtain ⟨_, keptIn, condensed, listed'⟩ := exists_cells_of_pairs_eq_ok sized bounded run'
      refine ⟨same, foundIn, keptIn, listed, listed', fun x member => ?_⟩
      obtain ⟨kept, convert, related⟩ := exists_ofCover_compacted covered (leaf x member)
      obtain rfl : kept = keptIn x := Except.ok.inj (convert.symm.trans (condensed x member))
      exact ⟨leaf x member, convert, related⟩
  · have unsized : config.chunkSize = 0 := by omega
    obtain ⟨e, failed⟩ : ∃ e, leaves = .error e :=
      exists_pairs_eq_error_of_chunkSize unsized ids geometries r false
    obtain ⟨e', failed'⟩ : ∃ e, compacted = .error e :=
      exists_pairs_eq_error_of_chunkSize unsized ids geometries r true
    exact ⟨iff_of_true ⟨e', failed'⟩ ⟨e, failed⟩, fun found kept run => by simp [failed] at run⟩

end

/-- The point at the origin in little-endian order. -/
def originBytes : List UInt8 := [1, 1, 0, 0, 0] ++ List.replicate 16 0

def lineBytes : List UInt8 := [1, 2, 0, 0, 0, 1, 0, 0, 0] ++ List.replicate 16 0

def ringBytes : List UInt8 := [1, 3, 0, 0, 0, 1, 0, 0, 0, 1, 0, 0, 0] ++ List.replicate 16 0

/-- Covers points with all descendants of a pentagon, each twice and the last first, lines
with the first three of them, and other geometries with the rest. -/
def pentagonCover (r : Resolution) : Geometry Float → Except String (List CellId)
  | .point _ => .ok (descendants.reverse ++ descendants)
  | .lineString _ => .ok (descendants.take 3)
  | _ => .ok (descendants.drop 3)
where
  descendants := (H3.fifthPentagon.descendants r.val).map H3.Cell.id

theorem resolutionOf_of_mem_pentagonCover (r : Resolution) (g : Geometry Float)
    (cells : List CellId) (h : pentagonCover r g = .ok cells) :
    ∀ id ∈ cells, H3.resolutionOf id = .ok r.val := by
  have listed : ∀ id ∈ cells, id ∈ pentagonCover.descendants r := by
    intro id member
    unfold pentagonCover at h
    split at h <;> cases h
    · simpa using member
    · exact List.mem_of_mem_take member
    · exact List.mem_of_mem_drop member
  intro id member
  obtain ⟨c, descendant, same⟩ := List.mem_map.mp (listed id member)
  have level := (H3.Cell.mem_descendants_iff.mp descendant).1
  exact H3.resolutionOf_eq_ok_iff.mpr ⟨c, same, level.trans (Nat.zero_add _)⟩

/-- The cells of the point merge into the pentagon. Those of the line and of the ring complete
each other to the same cells, but they belong to records of their own. -/
theorem Converter.pairs_compacted_pentagon :
    ((∀ r g cells, H3.coverIds r g = .ok cells → ∀ id ∈ cells, H3.resolutionOf id = .ok r.val) ∧
      ∀ r g cells, pentagonCover r g = .ok cells → ∀ id ∈ cells, H3.resolutionOf id = .ok r.val) ∧
      ([7, 8, 9] : List UInt64).length < Size.bound ∧
      ∃ found kept,
        (mk (.ofCover pentagonCover H3.compact) { chunkSize := 1 } (.build 1 1)).pairs [7, 8, 9]
          [originBytes, lineBytes, ringBytes] 1 false = .ok found ∧
        (mk (.ofCover pentagonCover H3.compact) { chunkSize := 1 } (.build 1 2)).pairs [7, 8, 9]
          [originBytes, lineBytes, ringBytes] 1 true = .ok kept ∧
        (7, H3.fifthPentagon.id) ∈ kept ∧
        ∀ child ∈ H3.fifthPentagon.children, (7, child.id) ∈ found ∧ (7, child.id) ∉ kept ∧
          ((8, child.id) ∈ kept ∨ (9, child.id) ∈ kept) := by
  have bounded : ([7, 8, 9] : List UInt64).length < Size.bound := by decide
  have spec := pairs_compacted resolutionOf_of_mem_pentagonCover { chunkSize := 1 } (.build 1 1)
    (.build 1 2) [7, 8, 9] [originBytes, lineBytes, ringBytes] bounded 1
  have runs : ((mk (.ofCover pentagonCover H3.compact) { chunkSize := 1 } (.build 1 1)).pairs
      [7, 8, 9] [originBytes, lineBytes, ringBytes] 1 false).toBool = true := by
    decide +kernel
  obtain ⟨found, leaves⟩ := exists_ok_of_toBool runs
  obtain ⟨kept, compacted⟩ := exists_ok_of_fails_iff spec.1 leaves
  obtain ⟨_, foundIn, keptIn, listed, listed', each⟩ := spec.2 found kept leaves compacted
  simp only [List.zipWith_cons_cons, List.zipWith_nil_left, List.forall_mem_cons] at each
  obtain ⟨⟨point, _, whole⟩, ⟨line, _, first⟩, ⟨ring, _, last⟩, _⟩ := each
  have seven : foundIn ⟨7, originBytes⟩ = H3.fifthPentagon.children.map H3.Cell.id :=
    eq_of_toOption point (by decide +kernel)
  have eight : foundIn ⟨8, lineBytes⟩ = (H3.fifthPentagon.children.take 3).map H3.Cell.id :=
    eq_of_toOption line (by decide +kernel)
  have nine : foundIn ⟨9, ringBytes⟩ = (H3.fifthPentagon.children.drop 3).map H3.Cell.id :=
    eq_of_toOption ring (by decide +kernel)
  rw [seven] at whole
  rw [eight] at first
  rw [nine] at last
  have merged (c : H3.Cell) := whole.mem_iff (r := 1) (by decide) (c := c)
  have alone (c : H3.Cell) := first.mem_iff (r := 1) (by decide) (c := c)
  have others (c : H3.Cell) := last.mem_iff (r := 1) (by decide) (c := c)
  refine ⟨⟨H3.resolutionOf_of_mem_coverIds, resolutionOf_of_mem_pentagonCover⟩, bounded, found,
    kept, leaves, compacted, ?_, fun child member => ⟨?_, ?_, ?_⟩⟩
  · simpa [listed'] using (merged _).mpr (by decide)
  · simpa [listed, seven] using ⟨child, member, rfl⟩
  · have gone := mt (merged child).mp (by revert child; decide)
    simpa [listed'] using gone
  · have left := Or.imp (alone child).mpr (others child).mpr (by revert child; decide)
    simpa [listed'] using left

end Vector

end HexCover
