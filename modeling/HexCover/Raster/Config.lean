import HexCover.Arithmetic
import HexCover.Binary.Text
import HexCover.Double
import HexCover.Numeral

/-! Settings of raster conversions: the rows of a band, the workers, and the
tolerance with which binary numbers match missing data. Settings may come from
named variables; a variable that is not set or not readable changes nothing. -/
namespace HexCover.Raster

structure Config where
  /-- The rows of a band; zero sizes bands from the raster and the workers. -/
  bandRows : Nat := 0
  /-- The workers; zero takes the shared pool. -/
  threads : Nat := 0
  /-- How far a binary number may be from missing data. -/
  tolerance : Double := ⟨0⟩
deriving DecidableEq, Repr

namespace Config

def ofVariables (lookup : String → Option String) : Config where
  bandRows := ((lookup "RASTER_BAND_ROWS").bind Numeral.size?).getD 0
  threads := ((lookup "RASTER_NUM_THREADS").bind Numeral.size?).getD 0
  tolerance := .ofNat
    (((lookup "RASTER_NODATA_TOLERANCE").bind (Numeral.real? Binary.double)).getD 0)

/-- Whether a tolerance is a finite number that is not below zero. -/
def isTolerance (x : Double) : Bool :=
  match Binary.double.read x.bits.toNat with
  | .finite negative units => !negative || units == 0
  | _ => false

def fault? (config : Config) : Option String :=
  if isTolerance config.tolerance then none
  else some ("float_nodata_tolerance must be finite and >= 0 (got " ++
    Binary.double.text config.tolerance.bits.toNat ++ ")")

def maxAutoBandRows : Nat := 256

/-- The bands per worker when bands are sized automatically, so that uneven bands
balance out. -/
def bandsPerWorker : Nat := 4

/-- The rows of a band for a raster of `rows` rows and a number of workers. -/
def bandRowsFor (config : Config) (rows workers : Nat) : Nat :=
  if 0 < config.bandRows then config.bandRows
  else min maxAutoBandRows (max 1 (Size.divCeil rows (max 1 workers * bandsPerWorker)))

end Config

/-- The rows of a band: the first one and the one after the last. -/
def band (rows bandRows index : Nat) : Nat × Nat :=
  (index * bandRows, min (index * bandRows + bandRows) rows)

/-- `bandRowsFor` on a machine, where the number of bands has to be a size. -/
def Config.bandRowsFor? (config : Config) (rows workers : Nat) : Option Nat :=
  if 0 < config.bandRows then some config.bandRows
  else do
    let bands ← Size.mul? (max 1 workers) bandsPerWorker
    return min maxAutoBandRows (max 1 (Size.divCeil rows bands))

def band? (rows bandRows index : Nat) : Option (Nat × Nat) := do
  let first ← Size.mul? index bandRows
  let last ← Size.add? first bandRows
  return (first, min last rows)

def Config.bands? (config : Config) (rows workers : Nat) : Option (List (Nat × Nat)) := do
  let bandRows ← config.bandRowsFor? rows workers
  (List.range (Size.divCeil rows bandRows)).mapM (band? rows bandRows)

end HexCover.Raster
