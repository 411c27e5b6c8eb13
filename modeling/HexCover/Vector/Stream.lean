import HexCover.Vector.Convert

/-! Converting a batch chunk by chunk. A stream gives the pairs of one chunk after
the other. It computes a window of chunks at once when it has none left, so that at
most one window is held. A window that fails gives its error as the last item. -/
namespace HexCover.Vector

structure Stream where
  indexing : Indexing
  pool : WorkerPool
  batch : Batch
  /-- The chunks that are computed at once. -/
  window : Nat
  /-- The first chunk that is not computed yet. -/
  nextChunk : Nat := 0
  /-- The chunks that are computed and not given out yet. -/
  buffered : List Pairs := []
  /-- Whether the end or an error was given out. -/
  done : Bool := false

namespace Stream

def numChunks (s : Stream) : Nat := s.batch.numChunks

def remaining (s : Stream) : Nat :=
  if s.done then 0 else s.buffered.length + (s.numChunks - s.nextChunk)

def sizeHint (s : Stream) : Nat × Nat := (s.buffered.length, s.remaining)

/-- The chunk before which the next window ends. -/
def windowEnd (s : Stream) : Nat := min (s.nextChunk + s.window) s.numChunks

def refill (s : Stream) : Except ConversionError Stream := do
  let results ← s.indexing.window s.pool s.batch s.nextChunk s.windowEnd
  return { s with nextChunk := s.windowEnd, buffered := s.buffered ++ results }

def pop (s : Stream) : Option Pairs × Stream :=
  match s.buffered with
  | [] => (none, s)
  | pairs :: rest => (some pairs, { s with buffered := rest })

/-- The next item, or `none` at the end. -/
def next (s : Stream) : Option (Except ConversionError Pairs) × Stream :=
  match s.pop with
  | (some pairs, s) => (some (.ok pairs), s)
  | (none, s) =>
    if s.done || s.numChunks ≤ s.nextChunk then (none, { s with done := true })
    else match s.refill with
      | .error e => (some (.error e), { s with done := true })
      | .ok s => let (pairs?, s) := s.pop
        (pairs?.map .ok, s)

/-- The next items up to the end, at most `count`. -/
def take : (count : Nat) → Stream → List (Except ConversionError Pairs) × Stream
  | 0, s => ([], s)
  | count + 1, s => match s.next with
    | (none, s) => ([], s)
    | (some item, s) => let (items, s) := take count s
      (item :: items, s)

/-- All items to come. There are no more than chunks, and then the end. -/
def rest (s : Stream) : List (Except ConversionError Pairs) × Stream := s.take (s.remaining + 1)

def text (s : Stream) : String :=
  "ChunkStream \x7b num_chunks: " ++ toString s.numChunks ++ ", next_chunk: " ++
    toString s.nextChunk ++ ", buffered: " ++ toString s.buffered.length ++ ", window: " ++
    toString s.window ++ ", done: " ++ toString s.done ++ " \x7d"

end Stream

/-- Convert parallel lists of identifiers and geometries chunk by chunk. -/
def Converter.stream (c : Converter) (ids : List UInt64) (geometries : List (List UInt8))
    (resolution : Nat) (compacted : Bool) : Except ConversionError Stream := do
  let b ← c.batch ids geometries resolution
  return {
    indexing := ⟨c.indexer, resolution, compacted⟩
    pool := c.pool
    batch := b
    window := c.config.prefetchWindow c.pool.threads }

end HexCover.Vector
