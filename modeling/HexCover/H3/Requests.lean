import HexCover.H3.Outline

/-! What compaction, expansion and outlines ask of a grid library. The members of a set come
in any order. The ways to merge a layer, to list descendants and to outline a layer are
parameters, and every list of cells that is handed over to be merged or outlined is written
down, whether the run succeeds or fails. -/
namespace HexCover.H3

def readAll (ids : List CellId) : Except ConversionError (List Cell) := ids.mapM Cell.ofId

/-- Expand the cells of identifiers, given a way to list descendants at a resolution. -/
def uncompactFrom (expansion : List Cell → Nat → List Cell) (ids : List CellId) (target : Nat) :
    Except ConversionError CellSet := do
  let _ ← Resolution.validate target
  let cells ← readAll ids
  match cells.find? fun c => target < c.resolution with
  | some finer => throw (.invalidResolution (tooFine target finer))
  | none => return idSet (expansion cells target)

/-- Runs that may fail and that write down the lists they hand over. -/
abbrev Asking := ExceptT LayerFault (StateM (List (List Cell)))

abbrev Merge := List Cell → Except LayerFault (List Cell)

/-- Hand a list over to be merged, and write it down. -/
def asking (merge : Merge) (layer : List Cell) : Asking (List Cell) := do
  modify (· ++ [layer])
  liftExcept (merge layer)

/-- An answer to a request, and the lists that were handed over for it. -/
structure Answered (α : Type) where
  answer : Except ConversionError α
  asked : List (List Cell)

def compactAsking (merge : Merge) (ids : List CellId) : Answered CellSet :=
  match readAll ids with
  | .error e => ⟨.error e, []⟩
  | .ok cells =>
    let (outcome, asked) := (compactLayers (asking merge) 15 cells).run.run []
    ⟨(outcome.map idSet).mapError fun fault => .compaction fault.message, asked⟩

/-- Outline the cells of identifiers. Without any, the outline is known. -/
def dissolveAsking {ω : Type} (nothing : ω) (outline : List Cell → Except LayerFault ω)
    (ids : List CellId) : Answered ω :=
  match readAll ids with
  | .error e => ⟨.error e, []⟩
  | .ok [] => ⟨.ok nothing, []⟩
  | .ok cells =>
    ⟨(outline (outlineCells cells)).mapError fun fault => .outline fault.message,
      [outlineCells cells]⟩

end HexCover.H3
