import HexCover.Proofs.Binary.Value
import HexCover.Proofs.Raster.Nodata

/-! Missing data with a tolerance. Which pixels match the declared value depends on their keys
only: patterns of one rank are read as the same number, up to the sign of zero, or are both not
numbers, and have the same distance from everything. So a scan with a tolerance is the scan
without missing data less some of its groups. A larger tolerance lets more pixels match, and a
tolerance says nothing about what is not a number, on either side. -/
namespace HexCover

namespace Double

def value? (x : Double) : Option ℚ := Binary.double.value? x.bits.toNat

end Double

namespace Binary.Format

variable {f : Format} {a b : Nat}

/-- What patterns of one rank are read as. -/
theorem read_of_rank_eq (proper : 0 < f.infinity) (same : f.rank a = f.rank b) :
    (f.read a = .nan ∧ f.read b = .nan) ∨
      (∃ negative, f.read a = .infinite negative ∧ f.read b = .infinite negative) ∨
      ∃ s m t n, f.read a = .finite s m ∧ f.read b = .finite t n ∧
        signedUnits s m = signedUnits t n := by
  cases nan : f.isNaN a with
  | true =>
    have other : f.isNaN b = true := rank_eq_top_iff.mp (same ▸ rank_of_isNaN nan)
    exact .inl ⟨read_of_isNaN nan, read_of_isNaN other⟩
  | false =>
    have other : f.isNaN b = false := by
      by_contra top
      rw [Bool.not_eq_false, ← rank_eq_top_iff, ← same, rank_eq_top_iff, nan] at top
      contradiction
    right
    rw [rank_of_not_isNaN nan, rank_of_not_isNaN other, signedUnits_inj] at same
    obtain ⟨magnitude, sign⟩ := same
    rw [read_of_not_isNaN nan, read_of_not_isNaN other, ← magnitude]
    by_cases infinite : f.magnitude a = f.infinity
    · have sign := sign.resolve_right (infinite ▸ proper.ne')
      rw [if_pos infinite, if_pos infinite, sign]
      exact .inl ⟨_, rfl, rfl⟩
    · rw [if_neg infinite, if_neg infinite]
      refine .inr ⟨_, _, _, _, rfl, rfl, ?_⟩
      rw [signedUnits_inj]
      exact ⟨rfl, sign.imp_right f.units_eq_zero_iff.mpr⟩

section Rank

variable (proper : 0 < f.infinity) (same : f.rank a = f.rank b) (c : Nat)
include proper same

theorem equal_of_rank_eq : f.equal a c = f.equal b c := by
  obtain ⟨left, right⟩ | ⟨_, left, right⟩ | ⟨_, _, _, _, left, right, units⟩ :=
    read_of_rank_eq proper same
  · simp only [equal, left, right]
  · simp only [equal, left, right]
  · simp only [equal, left, right]
    cases f.read c <;> simp only [units]

theorem distance_of_rank_eq : f.distance a c = f.distance b c := by
  obtain ⟨left, right⟩ | ⟨_, left, right⟩ | ⟨_, _, _, _, left, right, units⟩ :=
    read_of_rank_eq proper same
  · simp only [distance, left, right]
  · simp only [distance, left, right]
  · simp only [distance, left, right]
    cases f.read c <;> simp only [units]

end Rank

end Binary.Format

namespace Raster

open Binary

theorem matchesBinary_of_isNaN {f : Format} {x nodata : Nat} (nan : f.isNaN nodata = true)
    (tolerance : Double) : matchesBinary f x nodata tolerance = f.isNaN x := if_pos nan

theorem matchesBinary_of_not_isNaN {f : Format} {x nodata : Nat} (number : f.isNaN nodata = false)
    (tolerance : Double) : matchesBinary f x nodata tolerance = true ↔
      f.equal x nodata = true ∨ isPositive tolerance.bits.toNat = true ∧
        ∃ d, f.distance x nodata = some d ∧
          atMost (Binary.double.convert f d) tolerance.bits.toNat = true := by
  rw [matchesBinary, number, if_neg Bool.false_ne_true, Bool.or_eq_true, Bool.and_eq_true]
  cases f.distance x nodata <;> simp

theorem matchesBinary_of_rank_eq {f : Format} (proper : 0 < f.infinity) {x y : Nat}
    (same : f.rank x = f.rank y) (nodata : Nat) (tolerance : Double) :
    matchesBinary f x nodata tolerance = matchesBinary f y nodata tolerance := by
  have nan : f.isNaN x = f.isNaN y :=
    Bool.eq_iff_iff.mpr (by rw [← Format.rank_eq_top_iff, ← Format.rank_eq_top_iff, same])
  simp only [matchesBinary, nan, Format.equal_of_rank_eq proper same,
    Format.distance_of_rank_eq proper same]

/-- Whether a pixel stands for missing data depends on its key only. -/
theorem Pixel.isNodata_of_key_eq {t : ElementType} {p p' : Pixel t} (same : p.key = p'.key)
    (nodata : Pixel t) (tolerance : Double) :
    p.isNodata nodata tolerance = p'.isNodata nodata tolerance := by
  rw [key_eq_iff] at same
  cases encoding : t.encoding with
  | binary f =>
    have proper := ElementType.infinity_pos encoding
    simp only [encoding] at same
    simp only [isNodata, encoding, matchesBinary_of_rank_eq proper same]
  | signed =>
    simp only [encoding] at same
    rw [same]
  | unsigned =>
    simp only [encoding] at same
    rw [same]

section Larger

variable {lo hi : Double} {x y : ℚ} (first : lo.value? = some x) (second : hi.value? = some y)
  (le : x ≤ y)
include first second le

/-- Two tolerances as numbers of units. -/
theorem exists_units_le : ∃ s m t n, Binary.double.read lo.bits.toNat = .finite s m ∧
    Binary.double.read hi.bits.toNat = .finite t n ∧ signedUnits s m ≤ signedUnits t n := by
  obtain ⟨s, m, pattern, rfl⟩ := (Format.value?_eq_some_iff double_wellFormed).mp first
  obtain ⟨t, n, pattern', rfl⟩ := (Format.value?_eq_some_iff double_wellFormed).mp second
  have units := le_of_mul_le_mul_right le Binary.double.unit_pos
  exact ⟨s, m, t, n, pattern, pattern', Int.cast_le.mp units⟩

theorem isPositive_mono (positive : isPositive lo.bits.toNat = true) :
    isPositive hi.bits.toNat = true := by
  obtain ⟨s, m, t, n, pattern, pattern', units⟩ := exists_units_le first second le
  simp only [isPositive, pattern, pattern'] at positive ⊢
  cases s <;> cases t <;> simp [signedUnits] at positive units ⊢ <;> omega

theorem atMost_mono {distance : Nat} (near : atMost distance lo.bits.toNat = true) :
    atMost distance hi.bits.toNat = true := by
  obtain ⟨s, m, t, n, pattern, pattern', units⟩ := exists_units_le first second le
  simp only [atMost, pattern, pattern'] at near ⊢
  cases reading : Binary.double.read distance with
  | nan => simp [reading] at near
  | infinite negative => simpa [reading] using near
  | finite s' m' =>
    simp only [reading, decide_eq_true_eq] at near ⊢
    exact near.trans units

/-- What matches within a tolerance matches within a larger one. -/
theorem Pixel.isNodata_mono {t : ElementType} {p nodata : Pixel t}
    (nearby : p.isNodata nodata lo = true) : p.isNodata nodata hi = true := by
  cases encoding : t.encoding with
  | binary f =>
    simp only [isNodata, encoding] at nearby ⊢
    cases nan : f.isNaN nodata.toNat with
    | true => rwa [matchesBinary_of_isNaN nan] at nearby ⊢
    | false =>
      rw [matchesBinary_of_not_isNaN nan] at nearby ⊢
      rcases nearby with same | ⟨positive, d, distance, near⟩
      · exact .inl same
      · exact .inr ⟨isPositive_mono first second le positive, d, distance,
          atMost_mono first second le near⟩
  | signed => simpa only [isNodata, encoding] using nearby
  | unsigned => simpa only [isNodata, encoding] using nearby

end Larger

section NaN

variable {t : ElementType} {f : Format} (encoding : t.encoding = .binary f) {p nodata : Pixel t}
include encoding

theorem Pixel.isNodata_of_isNaN (nan : f.isNaN nodata.toNat = true) (tolerance : Double) :
    p.isNodata nodata tolerance = f.isNaN p.toNat := by
  simp only [isNodata, encoding, matchesBinary_of_isNaN nan]

/-- What is not a number matches no number. -/
theorem Pixel.isNodata_eq_false (number : f.isNaN nodata.toNat = false)
    (nan : f.isNaN p.toNat = true) (tolerance : Double) : p.isNodata nodata tolerance = false := by
  rw [← Bool.not_eq_true]
  simp only [isNodata, encoding, matchesBinary_of_not_isNaN number]
  rintro (same | ⟨_, d, distance, _⟩)
  · simp [(Format.numbers_of_equal same).1] at nan
  · simp [Format.distance, Format.read_of_isNaN nan] at distance

end NaN

/-- The settings accept the tolerances that are numbers and not negative. -/
theorem Config.fault?_eq_none_iff {config : Config} :
    config.fault? = none ↔ ∃ x, config.tolerance.value? = some x ∧ 0 ≤ x := by
  have accepted : config.fault? = none ↔ isTolerance config.tolerance = true := by
    unfold fault?
    split <;> simp_all
  rw [accepted, isTolerance]
  cases reading : Binary.double.read config.tolerance.bits.toNat with
  | nan => simp [Double.value?, Format.value?_eq_some_iff double_wellFormed, reading]
  | infinite => simp [Double.value?, Format.value?_eq_some_iff double_wellFormed, reading]
  | finite negative units =>
    have value := (Format.value?_eq_some_iff double_wellFormed).mpr ⟨_, _, reading, rfl⟩
    have sign : (0 : ℚ) ≤ signedUnits negative units * Binary.double.unit ↔
        0 ≤ signedUnits negative units := by
      rw [mul_nonneg_iff_of_pos_right Binary.double.unit_pos, Int.cast_nonneg_iff]
    simp only [Double.value?, value, Option.some.injEq, exists_eq_left', sign]
    cases negative <;> simp [signedUnits]

namespace Request

variable {t : ElementType}

def scanWithin (g : Grid) (pool : WorkerPool) (config : Config) (q : Request t)
    (tolerance : Double) : Except ConversionError Groups :=
  scan g pool { config with tolerance } { q with tolerance }

theorem skips_of_key_eq {q : Request t} {p p' : Pixel t} (same : p.key = p'.key) :
    q.skips p = q.skips p' := by
  simp only [skips, Pixel.isNodata_of_key_eq same]

theorem keeps_larger_iff {q : Request t} {lo hi : Double} {x y : ℚ} (first : lo.value? = some x)
    (second : hi.value? = some y) (le : x ≤ y) (s : Site t) :
    Keeps { q with tolerance := hi } s ↔ Keeps { q with tolerance := lo } s ∧
      ∀ p : Pixel t, p.key = s.pixel.key → skips { q with tolerance := hi } p = false := by
  constructor
  · intro keeps
    refine ⟨⟨keeps.found, ?_⟩, fun p same => (skips_of_key_eq same).trans keeps.data⟩
    have data := keeps.data
    rw [← Bool.not_eq_true] at data ⊢
    refine mt (fun skipped => ?_) data
    simp only [skips, Option.any_eq_true] at skipped ⊢
    exact skipped.imp fun _ => And.imp_right (Pixel.isNodata_mono first second le)
  · rintro ⟨keeps, data⟩
    exact ⟨keeps.found, data s.pixel rfl⟩

/-- A tolerance has a part in a scan only through the pixels that it lets match. -/
theorem scanWithin_congr {q : Request t} {a b : Double}
    (same : ∀ p, skips { q with tolerance := a } p = skips { q with tolerance := b } p)
    (g : Grid) (pool : WorkerPool) (config : Config) :
    q.scanWithin g pool config a = q.scanWithin g pool config b := by
  have step (row : Fin q.rowsFirst.dim₀) (groups : Groups) (col : Fin q.rowsFirst.dim₁) :
      addPixel g { q with tolerance := a } row groups col =
        addPixel g { q with tolerance := b } row groups col := by
    simp only [addPixel, same]
    rfl
  have rows : addRow g { q with tolerance := a } = addRow g { q with tolerance := b } := by
    funext groups row
    exact congrArg (fun step => (List.finRange q.rowsFirst.dim₁).foldlM step groups)
      (funext fun groups => funext fun col => step row groups col)
  have bands : scanBand g { q with tolerance := a } = scanBand g { q with tolerance := b } := by
    funext range
    exact congrArg (fun step => List.foldlM step _ _) rows
  simp only [scanWithin, scan, bands]
  rfl

/-- A tolerance removes whole groups. When a scan succeeds with one tolerance it succeeds with a
larger one, on whatever workers either runs, and finds some of the groups, each with all of its
cells: those with a key that no matching pixel has. What is declared by a pattern that is not a
number leaves the tolerance without a part, in failures as well, and what is declared by a
number leaves every pixel that is not a number. -/
theorem scan_tolerance (q : Request t) (g : Grid) (config : Config) {lo hi : Double} {x y : ℚ}
    (first : lo.value? = some x) (second : hi.value? = some y) (nonneg : 0 ≤ x) (le : x ≤ y)
    (pool pool' : WorkerPool) :
    { config with tolerance := lo }.fault? = none ∧
    { config with tolerance := hi }.fault? = none ∧
    (∀ found, q.scanWithin g pool config lo = .ok found →
      ∃ found', q.scanWithin g pool' config hi = .ok found' ∧
        (∀ key, key ∈ found' ↔ key ∈ found ∧
          ∀ p : Pixel t, p.key = key → skips { q with tolerance := hi } p = false) ∧
        ∀ key ∈ found', found'[key]? = found[key]?) ∧
    ∀ f, t.encoding = .binary f → ∀ nodata, q.nodata = some nodata →
      (f.isNaN nodata.toNat = true →
        ∀ a b, q.scanWithin g pool config a = q.scanWithin g pool config b) ∧
      (f.isNaN nodata.toNat = false → ∀ a found, q.scanWithin g pool config a = .ok found →
        ∀ col row p, q.pixel? col row = some p → f.isNaN p.toNat = true →
          ∃ cell, q.cellAt g col row = .ok cell ∧ cell ∈ found.cells p.key) := by
  classical
  refine ⟨Config.fault?_eq_none_iff.mpr ⟨x, first, nonneg⟩,
    Config.fault?_eq_none_iff.mpr ⟨y, second, nonneg.trans le⟩, fun found scanned => ?_,
    fun f encoding nodata declared => ⟨fun nan a b => ?_, fun number a found scanned => ?_⟩⟩
  · refine ⟨_, scan_restrict (keeps_larger_iff first second le) scanned pool' _,
      fun key => Groups.mem_restrict, fun key present => ?_⟩
    rw [Groups.getElem?_restrict, if_pos (Groups.mem_restrict.mp present).2]
  · refine scanWithin_congr (fun p => ?_) g pool config
    simp only [skips, declared, Option.any_some, Pixel.isNodata_of_isNaN encoding nan]
  · intro col row p pixel nan
    have keeps : Keeps { q with tolerance := a } ⟨col, row, p⟩ := by
      refine ⟨pixel, ?_⟩
      simp only [skips, declared, Option.any_some, Pixel.isNodata_eq_false encoding number nan]
    obtain ⟨cell, located⟩ := (scan_eq_ok_iff.mp scanned).2.1 _ keeps
    exact ⟨cell, located, (mem_cells_iff scanned).mpr ⟨_, keeps, rfl, located⟩⟩

/-- Three pixels: -9999, -9999.00001 and a pattern that is not a number. -/
def nearPixels : Request .float64 where
  pixels := ⟨1, 3, fun _ col =>
    if col.val = 0 then 0xc0c3878000000000
    else if col.val = 1 then 0xc0c387800053e2d6
    else 0x7ff8000000000000⟩
  transform := ⟨1, 0, 0, 0, 1, 0, Converter.regular_unit⟩
  axis := .yx
  resolution := 5
  nodata := some 0xc0c3878000000000
  tolerance := ⟨0⟩

/-- Without a tolerance the second pixel stays, within a thousandth it matches -9999, and the
third one is not removed by either. -/
theorem scan_tolerance_near : ∃ x y found found',
    (⟨0⟩ : Double).value? = some x ∧ (⟨0x3f50624dd2f1a9fc⟩ : Double).value? = some y ∧
      0 ≤ x ∧ x ≤ y ∧
      nearPixels.scanWithin Toy.grid (.build 1 1) {} ⟨0⟩ = .ok found ∧
      nearPixels.scanWithin Toy.grid (.build 1 2) {} ⟨0x3f50624dd2f1a9fc⟩ = .ok found' ∧
      Pixel.key (0xc0c387800053e2d6 : Pixel .float64) ∈ found ∧
      Pixel.key (0xc0c387800053e2d6 : Pixel .float64) ∉ found' ∧
      Pixel.key (0x7ff8000000000000 : Pixel .float64) ∈ found' := by
  have zero : (⟨0⟩ : Double).value? = some ((0 : ℤ) : ℚ) :=
    (Format.value?_eq_intCast_iff double_wellFormed).mpr ⟨false, 0, by decide +kernel, rfl⟩
  obtain ⟨y, thousandth, positive⟩ := Config.fault?_eq_none_iff.mp
    (by decide +kernel : ({ tolerance := ⟨0x3f50624dd2f1a9fc⟩ } : Config).fault? = none)
  have cells : ∀ col < 3, ∀ row < 1, (nearPixels.cellAt Toy.grid col row).toBool = true := by
    decide +kernel
  have scanned := scan_eq_ok (g := Toy.grid) (q := { nearPixels with tolerance := ⟨0⟩ })
    (.build 1 1) { tolerance := ⟨0⟩ } (by decide) fun s keeps =>
      exists_ok_of_toBool (cells s.col keeps.bounds.1 s.row keeps.bounds.2)
  obtain ⟨_, _, larger, _⟩ := scan_tolerance nearPixels Toy.grid {} zero thousandth (by simp)
    (by simpa using positive) (.build 1 1) (.build 1 2)
  obtain ⟨_, _, _, each⟩ := scan_tolerance nearPixels Toy.grid {} thousandth thousandth positive
    le_rfl (.build 1 2) (.build 1 2)
  obtain ⟨found', scanned', keys, _⟩ := larger _ scanned
  obtain ⟨cell, second⟩ := exists_ok_of_toBool (cells 1 (by decide) 0 (by decide))
  have near : Keeps { nearPixels with tolerance := ⟨0⟩ } ⟨1, 0, 0xc0c387800053e2d6⟩ :=
    ⟨rfl, by decide +kernel⟩
  have matched : skips { nearPixels with tolerance := ⟨0x3f50624dd2f1a9fc⟩ }
      (0xc0c387800053e2d6 : Pixel .float64) = true := by
    decide +kernel
  obtain ⟨cell', _, third⟩ := (each Binary.double rfl _ rfl).2 (by decide +kernel) _ found' scanned'
    2 0 0x7ff8000000000000 rfl (by decide +kernel)
  refine ⟨_, y, _, found', zero, thousandth, by simp, by simpa using positive, scanned, scanned',
    ?_, fun member => ?_, Groups.mem_of_mem_cells third⟩
  · exact Groups.mem_of_mem_cells ((mem_cells_iff scanned).mpr ⟨_, near, rfl, second⟩)
  · have kept := ((keys _).mp member).2 _ rfl
    exact Bool.false_ne_true (kept.symm.trans matched)

end Request

end Raster

end HexCover
