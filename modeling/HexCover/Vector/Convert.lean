import HexCover.CellSet
import HexCover.Pool
import HexCover.Vector.Batch
import HexCover.Vector.Config
import HexCover.Wkb.Decode

/-! Converting batches. An indexer gives the cells that a serialized geometry covers, in
ascending order and each once; on request they are compacted, every geometry on its own.
The records of a chunk are indexed one after the other, the chunks by the workers of a
pool; the results stand in the order of the records. A record that cannot be converted
makes the whole conversion fail. -/
namespace HexCover.Vector

structure Indexer where
  /-- The cells of a record at a resolution, compacted or not. -/
  convert : (id : UInt64) → (bytes : List UInt8) → (resolution : Nat) → (compacted : Bool) →
    Except ConversionError (List CellId)

/-- The indexer of geometries in well-known binary that a grid covers with cells. A
geometry that the grid refuses makes its record invalid; an empty one has no
cells. -/
def Indexer.ofCover (cover : Resolution → Geometry Float → Except String (List CellId))
    (compact : CellSet → Except ConversionError CellSet) : Indexer where
  convert id bytes resolution compacted := do
    let r ← Resolution.validate resolution
    match ← Wkb.decode id bytes with
    | none => return []
    | some g => match cover r (g.map Double.toFloat) with
      | .error text => throw (.invalidGeometry id text)
      | .ok cells =>
        let found := CellSet.ofCells cells
        let kept ← if compacted then compact found else pure found
        return kept.toList

abbrev Pairs := List (UInt64 × CellId)

structure Indexing where
  indexer : Indexer
  resolution : Nat
  compacted : Bool

namespace Indexing

def record (x : Indexing) (r : Record) : Except ConversionError Pairs :=
  (x.indexer.convert r.id r.geometry x.resolution x.compacted).map (·.map fun cell => (r.id, cell))

def chunk (x : Indexing) (c : Chunk) : Except ConversionError Pairs :=
  (c.records.mapM x.record).map List.flatten

def window (x : Indexing) (pool : WorkerPool) (b : Batch) (first last : Nat) :
    Except ConversionError (List Pairs) :=
  pool.collect ((b.chunksIn first last).map x.chunk).toArray

def batch (x : Indexing) (pool : WorkerPool) (b : Batch) : Except ConversionError Pairs :=
  (x.window pool b 0 b.numChunks).map List.flatten

end Indexing

structure Converter where
  indexer : Indexer
  config : Config
  pool : WorkerPool

namespace Converter

/-- A converter on a machine with a number of cores. -/
def make (cores : Nat) (indexer : Indexer) (config : Config) : Except ConversionError Converter :=
  if config.chunkSize = 0 then .error (.invalidChunkSize 0)
  else .ok ⟨indexer, config, .build cores config.threads⟩

/-- Accept a resolution and divide the records into chunks. -/
def batch (c : Converter) (ids : List UInt64) (geometries : List (List UInt8))
    (resolution : Nat) : Except ConversionError Batch := do
  let _ ← Resolution.validate resolution
  Batch.make ids geometries c.config.chunkSize

/-- The pairs of parallel lists of identifiers and geometries, in their order. -/
def pairs (c : Converter) (ids : List UInt64) (geometries : List (List UInt8))
    (resolution : Nat) (compacted : Bool) : Except ConversionError Pairs := do
  let b ← c.batch ids geometries resolution
  Indexing.batch ⟨c.indexer, resolution, compacted⟩ c.pool b

end Converter

end HexCover.Vector
