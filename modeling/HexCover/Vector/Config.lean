import HexCover.Numeral

/-! Settings of vector conversions: the records of a chunk, the workers, and how many
chunks a stream computes ahead. Settings may come from named variables; a variable
that is not set or not readable changes nothing. -/
namespace HexCover.Vector

structure Config where
  /-- The records of a chunk; at least one. -/
  chunkSize : Nat := 1000
  /-- The workers; zero takes the shared pool. -/
  threads : Nat := 0
  /-- The chunks that a stream computes at once; zero takes the number of workers. -/
  prefetchChunks : Nat := 0
deriving DecidableEq, Repr

namespace Config

def ofVariables (lookup : String → Option String) : Config where
  chunkSize := ((lookup "VECTOR_CHUNK_SIZE").bind Numeral.size?).getD 1000
  threads := ((lookup "VECTOR_NUM_THREADS").bind Numeral.size?).getD 0
  prefetchChunks := ((lookup "VECTOR_PREFETCH_CHUNKS").bind Numeral.size?).getD 0

def fault? (config : Config) : Option String :=
  if config.chunkSize = 0 then some "chunk_size must be > 0" else none

/-- The chunks that a stream computes at once with a number of workers. -/
def prefetchWindow (config : Config) (workers : Nat) : Nat :=
  if 0 < config.prefetchChunks then config.prefetchChunks else max 1 workers

end Config

end HexCover.Vector
