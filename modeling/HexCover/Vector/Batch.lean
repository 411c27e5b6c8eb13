import HexCover.Arithmetic
import HexCover.Error

/-! Batches of records in chunks. A record is a serialized geometry with an
identifier. A batch keeps its records in order and divides them into consecutive
chunks of one size, the last of which may be shorter. -/
namespace HexCover.Vector

/-- A serialized geometry and its identifier. -/
structure Record where
  id : UInt64
  geometry : List UInt8
deriving DecidableEq, Repr

structure Chunk where
  index : Nat
  records : List Record
deriving DecidableEq, Repr

structure Batch where
  records : Array Record
  chunkSize : Nat
  chunkSize_pos : 0 < chunkSize

namespace Batch

def make (ids : List UInt64) (geometries : List (List UInt8)) (chunkSize : Nat) :
    Except ConversionError Batch :=
  if ids.length ≠ geometries.length then
    .error (.lengthMismatch ids.length geometries.length)
  else if h : 0 < chunkSize then .ok ⟨(ids.zipWith Record.mk geometries).toArray, chunkSize, h⟩
  else .error (.invalidChunkSize chunkSize)

def numChunks (b : Batch) : Nat := Size.divCeil b.records.size b.chunkSize

/-- The chunk with an index, if there is one. An index whose first record is beyond
every size has none. -/
def chunk? (b : Batch) (index : Nat) : Option Chunk :=
  match Size.mul? index b.chunkSize with
  | none => none
  | some first =>
    if b.records.size ≤ first then none
    else
      let last := min (Size.addSaturating first b.chunkSize) b.records.size
      some ⟨index, (b.records.extract first last).toList⟩

/-- The chunks from an index on, at most `count`, up to the first that is missing. -/
def chunksFrom (b : Batch) : (index count : Nat) → List Chunk
  | _, 0 => []
  | index, count + 1 => match b.chunk? index with
    | none => []
    | some chunk => chunk :: chunksFrom b (index + 1) count

/-- The chunks with an index from `first` on and below `last`. -/
def chunksIn (b : Batch) (first last : Nat) : List Chunk := b.chunksFrom first (last - first)

def chunks (b : Batch) : List Chunk := b.chunksIn 0 b.numChunks

end Batch

end HexCover.Vector
