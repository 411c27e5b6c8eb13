import HexCover.Vector.Convert
import Std.Data.ExtTreeMap

/-! Tables of records and cells. Pairs of identifiers and cells are joined with the
records that have the identifiers: one row for each pair, in the order of the
pairs. Records without cells and pairs without a record have no row. The join may go by an
index of positions; a position behind the last record is told from what is wrong with the
input. -/
namespace HexCover.Vector

structure Row (ρ : Type) where
  record : ρ
  cell : CellId
deriving DecidableEq, Repr

abbrev RecordIndex (ρ : Type) := Std.ExtTreeMap UInt64 ρ compare

/-- Add a record to an index. An identifier may occur once. -/
def addRecord {ρ : Type} (index : RecordIndex ρ) (entry : UInt64 × ρ) :
    Except ConversionError (RecordIndex ρ) :=
  if index.contains entry.1 then .error (.duplicateSurrogateId entry.1)
  else .ok (index.insert entry.1 entry.2)

/-- Join records with pairs; `ids` are the identifiers of the records. -/
def join {ρ : Type} (records : List ρ) (ids : List UInt64) (pairs : Pairs) :
    Except ConversionError (List (Row ρ)) := do
  if records.length ≠ ids.length then throw (.lengthMismatch ids.length records.length)
  let index ← (ids.zip records).foldlM addRecord (∅ : RecordIndex ρ)
  return pairs.filterMap fun (id, cell) => index[id]?.map fun record => ⟨record, cell⟩

/-- Why the join by positions stops. -/
inductive JoinStop where
  | failure (error : ConversionError)
  | behindRecords (position : Nat)

section

variable {ρ : Type}

/-- The row of a pair, unless no record has its identifier. -/
def rowAt (records : List ρ) (positions : RecordIndex Nat) (pair : UInt64 × CellId) :
    Except JoinStop (Option (Row ρ)) :=
  match positions[pair.1]? with
  | none => .ok none
  | some position => match records[position]? with
    | none => .error (.behindRecords position)
    | some record => .ok (some ⟨record, pair.2⟩)

def joinByPosition (records : List ρ) (ids : List UInt64) (pairs : Pairs) :
    Except JoinStop (List (Row ρ)) := do
  if records.length ≠ ids.length then
    throw (.failure (.lengthMismatch ids.length records.length))
  let positions ← (ids.zipIdx.foldlM addRecord (∅ : RecordIndex Nat)).mapError .failure
  pairs.filterMapM (rowAt records positions)

end

/-- The positions of the records of a list as identifiers. -/
def positionIds (n : Nat) : List UInt64 := (List.range n).map UInt64.ofNat

/-- The rows of records with their geometries, in the order of the records. -/
def Converter.table {ρ : Type} (c : Converter) (records : List ρ) (geometry : ρ → List UInt8)
    (resolution : Nat) (compacted : Bool) : Except ConversionError (List (Row ρ)) := do
  let ids := positionIds records.length
  let found ← c.pairs ids (records.map geometry) resolution compacted
  join records ids found

end HexCover.Vector
