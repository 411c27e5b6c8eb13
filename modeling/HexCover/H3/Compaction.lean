import HexCover.H3.Cell

/-! Compaction and expansion of cell sets. A layer is a list of distinct cells of
one resolution; merging it replaces every complete group of siblings by their
parent, again and again up to the base cells. A set of several resolutions is
compacted from its finest layer upward: what merges into coarser cells joins the
layer of its own resolution before that one is merged. Expansion replaces each
cell by its descendants at one resolution. -/
namespace HexCover.H3

inductive LayerFault where
  | mixedResolutions
  | repeatedCell
deriving DecidableEq, Repr

def LayerFault.message : LayerFault → String
  | .mixedResolutions => "heterogeneous resolution"
  | .repeatedCell => "duplicate indices"

def idSet (cells : List Cell) : CellSet := CellSet.ofCells (cells.map Cell.id)

/-- Accept cells of one resolution without repetition. -/
def checkLayer (cells : List Cell) : Except LayerFault Unit :=
  if cells.any fun c => c.resolution != (cells.head?.map Cell.resolution).getD 0 then
    .error .mixedResolutions
  else if (idSet cells).size < cells.length then .error .repeatedCell
  else .ok ()

/-- Whether all siblings of a cell, itself among them, are present. -/
def hasAllSiblings (present : CellSet) (c : Cell) : Bool :=
  c.parent.children.all fun sibling => present.contains sibling.id

/-- Merge a layer of resolution `r` upward. Each complete group holds one central
cell, which stands for the group. -/
def mergeSiblings : (r : Nat) → List Cell → List Cell
  | 0, layer => layer
  | r + 1, layer =>
    let (merged, kept) := layer.partition (hasAllSiblings (idSet layer))
    let parents := (merged.filter fun c => c.digits.getLast? = some 0).map Cell.parent
    kept ++ mergeSiblings r parents

def compactLayer (cells : List Cell) : Except LayerFault (List Cell) := do
  checkLayer cells
  return mergeSiblings ((cells.head?.map Cell.resolution).getD 0) cells

/-- The cells in ascending order of identifiers, each once. -/
def distinct (cells : List Cell) : List Cell :=
  (cells.mergeSort fun a b => a.id.raw ≤ b.id.raw).eraseReps

section

variable {m : Type → Type} [Monad m] (merge : List Cell → m (List Cell))

/-- Merge the cells of one resolution, unless there are none. -/
def mergeLayer (layer : List Cell) : m (List Cell) :=
  if layer.isEmpty then return [] else merge (distinct layer)

/-- Compact the layers of resolution `r` and coarser, with whatever effects merging has. -/
def compactLayers : (r : Nat) → (pending : List Cell) → m (List Cell)
  | 0, pending => mergeLayer merge (pending.filter fun c => c.resolution = 0)
  | r + 1, pending => do
    let (layer, rest) := pending.partition fun c => c.resolution = r + 1
    let merged ← mergeLayer merge layer
    let (settled, coarser) := merged.partition fun c => c.resolution = r + 1
    return settled ++ (← compactLayers r (rest ++ coarser))

end

def compactWith (merge : List Cell → Except LayerFault (List Cell)) (s : CellSet) :
    Except ConversionError CellSet := do
  match compactLayers merge 15 (← cellsOf s) with
  | .ok cells => return idSet cells
  | .error fault => throw (.compaction fault.message)

def compact (s : CellSet) : Except ConversionError CellSet := compactWith compactLayer s

/-- The message for a cell that is finer than the resolution to expand to. -/
def tooFine (target : Nat) (c : Cell) : String :=
  "cannot uncompact to resolution " ++ toString target ++ " (input contains cell " ++
    c.id.text ++ " at resolution " ++ toString c.resolution ++ ")"

def expand (cells : List Cell) (target : Nat) : List Cell :=
  cells.flatMap fun c => c.descendants (target - c.resolution)

def uncompact (s : CellSet) (target : Nat) : Except ConversionError CellSet := do
  let _ ← Resolution.validate target
  let cells ← cellsOf s
  match cells.find? fun c => target < c.resolution with
  | some finer => throw (.invalidResolution (tooFine target finer))
  | none => return idSet (expand cells target)

/-- Whether a set holds a cell or one of its ancestors. A member answers for
itself even if it is no cell of the grid. -/
def containsOrAncestor (s : CellSet) (id : CellId) : Except ConversionError Bool :=
  if s.contains id then .ok true
  else (Cell.ofId id).map fun c =>
    (List.range c.resolution).any fun n => s.contains (c.ancestor n).id

/-- The word of the ancestor at resolution `n` of the cell of a word. -/
def ancestorWord (word n : Nat) : Nat :=
  let resolution := word / 2 ^ 52 % 16
  (word - resolution * 2 ^ 52 + n * 2 ^ 52) ||| (2 ^ (3 * (15 - n)) - 1)

/-- Whether a set holds an ancestor that is coarser than a resolution. -/
def climb (s : CellSet) (word : Nat) : (resolution : Nat) → Bool
  | 0 => false
  | n + 1 => s.contains ⟨UInt64.ofNat (ancestorWord word n)⟩ || climb s word n

def searchUpward (s : CellSet) (id : CellId) : Except ConversionError Bool :=
  if s.contains id then .ok true
  else (Cell.ofId id).map fun c => climb s id.raw.toNat c.resolution

def resolutionCounts (s : CellSet) : Except ConversionError (List Nat) := do
  let resolutions := (← cellsOf s).map Cell.resolution
  return Resolution.all.map fun r => resolutions.count r.val

def atResolution (s : CellSet) (r : Nat) : Except ConversionError (List CellId) := do
  let _ ← Resolution.validate r
  return ((← cellsOf s).filter fun c => c.resolution = r).map Cell.id

end HexCover.H3
