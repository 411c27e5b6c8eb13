import HexCover.Proofs.Binary.Equality
import HexCover.Proofs.Raster.Compaction

/-! Rasters with missing data. Without a tolerance a pixel stands for missing data exactly if
it has the key of the declared value: equality of numbers and equality of keys agree, for
the two zeros and for everything that is not a number as well. So what a scan finds is what
it finds without missing data less the group of that key, and compaction, which treats each
group on its own, and the order of the rows keep that. -/
namespace HexCover

namespace Raster

open Binary

theorem matchesBinary_iff {f : Format} (proper : 0 < f.infinity) {tolerance : Double}
    (strict : isPositive tolerance.bits.toNat = false) {x nodata : Nat} :
    matchesBinary f x nodata tolerance = true ↔ f.rank x = f.rank nodata := by
  cases nan : f.isNaN nodata with
  | true => rw [matchesBinary, nan, if_pos rfl, Format.rank_of_isNaN nan, Format.rank_eq_top_iff]
  | false =>
    simp only [matchesBinary, nan, strict, Bool.false_and, Bool.or_false, Bool.false_eq_true,
      if_false]
    exact Format.equal_iff_rank_eq proper (.inr nan)

theorem Pixel.key_eq_iff {t : ElementType} {p p' : Pixel t} : p.key = p'.key ↔
    match t.encoding with
    | .binary f => f.rank p.toNat = f.rank p'.toNat
    | _ => p = p' := by
  cases encoding : t.encoding with
  | binary f => simp [key, number, encoding]
  | signed => simp [key, number, encoding, BitVec.toInt_inj]
  | unsigned => simp [key, number, encoding, BitVec.toNat_inj]

/-- Without a tolerance a pixel stands for missing data exactly if it has the key of the
declared value. -/
theorem Pixel.isNodata_iff {t : ElementType} {tolerance : Double}
    (strict : t.isFloat = true → isPositive tolerance.bits.toNat = false) {p nodata : Pixel t} :
    p.isNodata nodata tolerance = true ↔ p.key = nodata.key := by
  rw [key_eq_iff]
  cases encoding : t.encoding with
  | binary f =>
    have proper := ElementType.infinity_pos encoding
    simp only [isNodata, encoding]
    exact matchesBinary_iff proper (strict (ElementType.isFloat_iff.mpr ⟨f, encoding⟩))
  | signed => simp [isNodata, encoding]
  | unsigned => simp [isNodata, encoding]

namespace Groups

def without (g : Groups) (key : Key) : Groups := g.filter fun key' _ => key' ≠ key

variable {g : Groups} {key key' : Key}

theorem without_eq_restrict (g : Groups) (key : Key) : g.without key = g.restrict (· ≠ key) := rfl

theorem mem_without : key' ∈ g.without key ↔ key' ∈ g ∧ key' ≠ key := mem_restrict

theorem cells_without (other : key' ≠ key) : (g.without key).cells key' = g.cells key' := by
  have kept : (fun k => k ≠ key) key' := other
  exact cells_restrict kept

theorem rows_without : (g.without key).rows = g.rows.filter fun row => row.1 ≠ key := by
  rw [rows, without, Std.ExtTreeMap.toList_filter, rows, List.filter_flatMap]
  induction g.toList with
  | nil => rfl
  | cons entry entries ih =>
    obtain ⟨key', s⟩ := entry
    -- the rows of one group stay together or are all left out
    by_cases same : key' = key
    · have dropped : (s.toList.map fun cell => (key', cell)).filter (fun row => row.1 ≠ key) =
          [] :=
        List.filter_eq_nil_iff.mpr (by simp [same])
      rw [List.filter_cons_of_neg (by simpa using same), List.flatMap_cons, dropped,
        List.nil_append, ih]
    · have kept : (s.toList.map fun cell => (key', cell)).filter (fun row => row.1 ≠ key) =
          s.toList.map fun cell => (key', cell) :=
        List.filter_eq_self.mpr (by simp [same])
      rw [List.filter_cons_of_pos (by simpa using same), List.flatMap_cons, List.flatMap_cons,
        kept, ih]

/-- Compaction treats every group on its own. -/
theorem compact_without {grid : Grid} {pool : WorkerPool} {compacted : Groups}
    (run : g.compact grid pool = .ok compacted) (pool' : WorkerPool) :
    (g.without key).compact grid pool' = .ok (compacted.without key) := by
  obtain ⟨keys, each⟩ := compact_eq_ok run
  have each' : ∀ key' ∈ g.without key,
      grid.compact ((g.without key).cells key') = .ok (compacted.cells key') := by
    intro key' present
    obtain ⟨present, other⟩ := mem_without.mp present
    rw [cells_without other, each key' present]
  obtain ⟨compacted', run'⟩ := exists_compact fun key' present => ⟨_, each' key' present⟩
  obtain ⟨keys', results⟩ := compact_eq_ok run'
  have members (key' : Key) : key' ∈ compacted' ↔ key' ∈ compacted.without key := by
    rw [keys', mem_without, mem_without, keys]
  rw [run']
  congr 1
  refine ext_cells members fun key' cell => ?_
  by_cases present : key' ∈ g.without key
  · rw [cells_without (mem_without.mp present).2,
      Except.ok.inj ((results key' present).symm.trans (each' key' present))]
  · have absent := mt (keys' key').mp present
    rw [cells_of_not_mem absent, cells_of_not_mem (mt (members key').mpr absent)]

end Groups

/-- A key that a scan finds has a cell. -/
theorem Request.mem_iff_exists_cell {t : ElementType} {q : Request t} {grid : Grid}
    {pool : WorkerPool} {config : Config} {found : Groups}
    (scanned : q.scan grid pool config = .ok found) {key : Key} :
    key ∈ found ↔ ∃ cell, cell ∈ found.cells key := by
  obtain ⟨_, _, rfl⟩ := scan_eq_ok_iff.mp scanned
  simp only [Groups.mem_ofPairs, Groups.mem_cells_ofPairs]

/-- Two scans that differ in what stands for missing data. If one of them keeps the pixels
that the other one keeps and whose keys satisfy a condition, it finds the groups of these keys. -/
theorem Request.scan_restrict {t : ElementType} {q : Request t} {nodata : Option (Pixel t)}
    {tolerance : Double} {keeps : Key → Prop} [DecidablePred keeps]
    (fewer : ∀ s, Keeps { q with nodata, tolerance } s ↔ q.Keeps s ∧ keeps s.pixel.key)
    {grid : Grid} {pool : WorkerPool} {config : Config} {found : Groups}
    (scanned : q.scan grid pool config = .ok found) (pool' : WorkerPool) (config' : Config) :
    scan grid pool' config' { q with nodata, tolerance } = .ok (found.restrict keeps) := by
  obtain ⟨valid, located, _⟩ := scan_eq_ok_iff.mp scanned
  obtain ⟨found', scanned'⟩ : ∃ found',
      scan grid pool' config' { q with nodata, tolerance } = .ok found' :=
    ⟨_, scan_eq_ok pool' config' valid fun s keeps => located s ((fewer s).mp keeps).1⟩
  have cells (key : Key) (cell : CellId) :
      cell ∈ found'.cells key ↔ cell ∈ (found.restrict keeps).cells key := by
    rw [mem_cells_iff scanned', Groups.mem_cells_restrict, mem_cells_iff scanned]
    constructor
    · rintro ⟨s, kept, rfl, cell⟩
      obtain ⟨kept, keeps⟩ := (fewer s).mp kept
      exact ⟨⟨s, kept, rfl, cell⟩, keeps⟩
    · rintro ⟨⟨s, kept, rfl, cell⟩, keeps⟩
      exact ⟨s, (fewer s).mpr ⟨kept, keeps⟩, rfl, cell⟩
  rw [scanned']
  congr 1
  refine Groups.ext_cells (fun key => ?_) cells
  simp only [mem_iff_exists_cell scanned', cells, Groups.mem_restrict,
    mem_iff_exists_cell scanned, Groups.mem_cells_restrict, exists_and_right]

section Declared

variable {task : Task} {p : Pixel task.array.type} {tolerance : Double}
  (strict : task.array.type.isFloat = true → isPositive tolerance.bits.toNat = false)
include strict

theorem keeps_request_iff {s : Site task.array.type} :
    (task.request (some p) tolerance).Keeps s ↔
      (task.request none tolerance).Keeps s ∧ s.pixel.key ≠ p.key := by
  have skips : (task.request (some p) tolerance).skips s.pixel = false ↔
      s.pixel.key ≠ p.key := by
    rw [ne_eq, ← Pixel.isNodata_iff strict, Bool.not_eq_true]
    rfl
  exact ⟨fun keeps => ⟨⟨keeps.found, rfl⟩, skips.mp keeps.data⟩,
    fun ⟨keeps, other⟩ => ⟨keeps.found, skips.mpr other⟩⟩

/-- A scan with missing data finds what a scan without finds, less one group. -/
theorem scan_request_nodata {grid : Grid} {pool : WorkerPool} {config : Config} {found : Groups}
    (scanned : (task.request none tolerance).scan grid pool config = .ok found)
    (pool' : WorkerPool) :
    (task.request (some p) tolerance).scan grid pool' config = .ok (found.without p.key) := by
  rw [Groups.without_eq_restrict]
  exact Request.scan_restrict (fun _ => keeps_request_iff strict) scanned pool' config

end Declared

namespace Converter

section Declared

variable {grid : Grid} {config : Config} {task : Task} {v : Value} {p : Pixel task.array.type}
  (converts : v.pixel? task.array.type = some p)
  (strict : task.array.type.isFloat = true → isPositive config.tolerance.bits.toNat = false)
include converts strict

theorem leaves_nodata {pool : WorkerPool} {found : Groups}
    (h : (mk grid config pool).groups { task with nodata := none, compacted := false } =
      .ok found) (pool' : WorkerPool) :
    (mk grid config pool').groups { task with nodata := some v, compacted := false } =
      .ok (found.without p.key) := by
  have given : nodataPixel task.array.type (some v) = .ok (some p) := by
    rw [nodataPixel, converts]
  obtain ⟨_, none, scanned⟩ := (@groups_eq_ok_iff _ { task with nodata := none } _).mp h
  cases none
  exact (@groups_eq_ok_iff _ { task with nodata := some v } _).mpr
    ⟨_, given, scan_request_nodata strict scanned pool'⟩

theorem groups_nodata {pool : WorkerPool} {found : Groups}
    (h : (mk grid config pool).groups { task with nodata := none } = .ok found)
    (pool' : WorkerPool) :
    (mk grid config pool').groups { task with nodata := some v } =
      .ok (found.without p.key) := by
  rw [groups_eq_bind, bind_eq_ok_iff] at h ⊢
  obtain ⟨leaves, scanned, finished⟩ := h
  refine ⟨_, leaves_nodata converts strict scanned pool', ?_⟩
  cases compacted : task.compacted with
  | false =>
    simp only [compacted, Bool.false_eq_true, if_false, Except.ok.injEq] at finished ⊢
    rw [finished]
  | true =>
    simp only [compacted, if_true] at finished ⊢
    exact Groups.compact_without finished pool'

theorem not_mem_of_nodata {pool : WorkerPool} {found : Groups}
    (h : (mk grid config pool).groups { task with nodata := some v } = .ok found) :
    p.key ∉ found := by
  rw [groups_eq_bind, bind_eq_ok_iff] at h
  obtain ⟨leaves, scanned, finished⟩ := h
  have absent : p.key ∉ leaves := by
    obtain ⟨_, given, scanned⟩ :=
      (@groups_eq_ok_iff _ { task with nodata := some v } _).mp scanned
    rw [nodataPixel, converts] at given
    cases given
    rw [Request.mem_iff_exists_cell scanned]
    rintro ⟨cell, member⟩
    obtain ⟨s, keeps, same, _⟩ := (Request.mem_cells_iff scanned).mp member
    exact ((keeps_request_iff strict).mp keeps).2 same
  cases compacted : task.compacted with
  | false =>
    simp only [compacted, Bool.false_eq_true, if_false, Except.ok.injEq] at finished
    rwa [← finished]
  | true =>
    simp only [compacted, if_true] at finished
    exact mt ((Groups.compact_eq_ok finished).1 p.key).mp absent

/-- Declaring a value for missing data removes its group and nothing else. A conversion that
succeeds without it succeeds with it, on whatever workers either runs, and gives the same rows
in the same order without those that have the key of the value; no other conversion gives such
rows either. The pixels that match are those with that key: with everything that is not a number
if the value is not a number, and with both zeros if it is a zero. -/
theorem rows_nodata (pool pool' : WorkerPool) :
    (∀ rows, (mk grid config pool).rows { task with nodata := none } = .ok rows →
      (mk grid config pool').rows { task with nodata := some v } =
        .ok (rows.filter fun row => row.1 ≠ p.key)) ∧
    (∀ rows, (mk grid config pool').rows { task with nodata := some v } = .ok rows →
      ∀ row ∈ rows, row.1 ≠ p.key) ∧
    ∀ x : Pixel task.array.type, (x.isNodata p config.tolerance = true ↔ x.key = p.key) ∧
      ∀ f, task.array.type.encoding = .binary f →
        (f.isNaN p.toNat = true →
          (x.isNodata p config.tolerance = true ↔ f.isNaN x.toNat = true)) ∧
        (f.magnitude p.toNat = 0 →
          (x.isNodata p config.tolerance = true ↔ f.magnitude x.toNat = 0)) := by
  refine ⟨fun rows run => ?_, fun rows run row member same => ?_, fun x =>
    ⟨Pixel.isNodata_iff strict, fun f encoding => ?_⟩⟩
  · obtain ⟨found, grouped, rfl⟩ := rows_eq_ok_iff.mp run
    exact rows_eq_ok_iff.mpr ⟨_, groups_nodata converts strict grouped pool', Groups.rows_without⟩
  · obtain ⟨found, grouped, rfl⟩ := rows_eq_ok_iff.mp run
    have present := Groups.mem_of_mem_cells (Groups.mem_rows_iff.mp member)
    exact not_mem_of_nodata converts strict grouped (same ▸ present)
  · have ranks : x.isNodata p config.tolerance = true ↔ f.rank x.toNat = f.rank p.toNat := by
      rw [Pixel.isNodata_iff strict, Pixel.key_eq_iff, encoding]
    constructor
    · intro nan
      rw [ranks, Format.rank_of_isNaN nan, Format.rank_eq_top_iff]
    · intro zero
      rw [ranks, Format.rank_eq_zero_iff.mpr zero, Format.rank_eq_zero_iff]

end Declared

def nanPixels : Task where
  array := ⟨.float32, 1, 2, fun _ col => if col.val = 0 then 0xffc00001 else 0x3f800000⟩
  transform := ⟨1, 0, 0, 0, 1, 0, regular_unit⟩
  axis := .yx
  resolution := 5
  nodata := none
  compacted := true

/-- A negative pattern that is not a number and carries a payload matches the quiet one. -/
theorem rows_nodata_nan :
    let v : Value := ⟨.float64, 0x7ff8000000000000⟩
    let quiet : Pixel .float32 := 0x7fc00000
    v.pixel? .float32 = some quiet ∧
      isPositive ({} : Config).tolerance.bits.toNat = false ∧
      ∃ rows, (mk (gridWith H3.locateDegrees) {} (.build 1 1)).rows nanPixels = .ok rows ∧
        (∃ cell, (Pixel.key (0xffc00001 : Pixel .float32), cell) ∈ rows) ∧
        Pixel.key (0xffc00001 : Pixel .float32) = quiet.key ∧
        (mk (gridWith H3.locateDegrees) {} (.build 1 2)).rows { nanPixels with nodata := some v } =
          .ok (rows.filter fun row => row.1 ≠ quiet.key) := by
  intro v quiet
  have converts : v.pixel? .float32 = some quiet := by decide +kernel
  have strict : isPositive ({} : Config).tolerance.bits.toNat = false := by decide +kernel
  have cells : ∀ col < 2, ∀ row < 1, ((nanPixels.request none ⟨0⟩).cellAt
      (gridWith H3.locateDegrees) col row).toBool = true := by
    decide +kernel
  have scanned := Request.scan_eq_ok (q := nanPixels.request none ⟨0⟩) (.build 1 1) {} (by decide)
    fun s keeps => exists_ok_of_toBool (cells s.col keeps.bounds.1 s.row keeps.bounds.2)
  have leaves := (@groups_eq_ok_iff (mk (gridWith H3.locateDegrees) {} (.build 1 1)) nanPixels
    _).mpr ⟨none, rfl, scanned⟩
  obtain ⟨compacted, run, each⟩ := exists_groups_compacted resolutionOf_locateDegrees leaves
  have rows : (mk (gridWith H3.locateDegrees) {} (.build 1 1)).rows nanPixels =
      .ok compacted.rows := rows_eq_ok_iff.mpr ⟨compacted, run, rfl⟩
  obtain ⟨cell, first⟩ := exists_ok_of_toBool (cells 0 (by decide) 0 (by decide))
  obtain ⟨cell', member⟩ := (each (Pixel.key (0xffc00001 : Pixel .float32))).2.nonempty_iff.mpr
    ⟨cell, (Request.mem_cells_iff scanned).mpr ⟨⟨0, 0, 0xffc00001⟩, ⟨rfl, rfl⟩, rfl, first⟩⟩
  refine ⟨converts, strict, _, rows, ⟨cell', Groups.mem_rows_iff.mpr member⟩, by decide +kernel, ?_⟩
  exact (@rows_nodata (gridWith H3.locateDegrees) {} nanPixels v quiet converts (fun _ => strict)
    (.build 1 1) (.build 1 2)).1 _ rows

end Converter

end Raster

end HexCover
