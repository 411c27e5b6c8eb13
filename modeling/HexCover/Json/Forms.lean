import HexCover.Axis
import HexCover.CellSet
import HexCover.Json.Number
import HexCover.Json.Reader
import HexCover.Raster.Choice
import HexCover.Raster.Config
import HexCover.Vector.Config
import HexCover.Vector.Table

/-! What JSON values stand for in this library. A name is a string, or an object with
the name as its only member and nothing as its value; a value of a raster is an
object with the name of its type. A record of fields is an object, in which unknown
members are passed over, or an array of the fields in order. -/
namespace HexCover.Json

namespace Tree

def text? : Tree → Option String
  | string points => textOf? points
  | _ => none

/-- The name and the content of an object with one member. -/
def tagged? : Tree → Option (String × Tree)
  | object [(name, content)] => (textOf? name).map fun name => (name, content)
  | _ => none

def name? (t : Tree) : Option String :=
  match t.tagged? with
  | some (name, null) => some name
  | _ => t.text?

def named? {α : Type} (nameOf : α → String) (all : List α) (t : Tree) : Option α :=
  t.name?.bind fun name => all.find? fun a => nameOf a = name

def word? : Tree → Option Nat
  | number n => n.integer?.bind fun i => if 0 ≤ i then some i.toNat else none
  | _ => none

def double? : Tree → Option Double
  | number n => (n.binary? Binary.double).map Double.ofNat
  | _ => none

def items? : Tree → Option (List Tree)
  | array items => some items
  | _ => none

/-- The value of a member that occurs at most once. -/
def member? (members : List (String × Tree)) (name : String) : Option (Option Tree) :=
  match members.filter fun m => m.1 = name with
  | [] => some none
  | [m] => some (some m.2)
  | _ => none

def fields? (names : List String) : Tree → Option (List (Option Tree))
  | object members => do
    let members ← members.mapM fun (name, value) => return (← textOf? name, value)
    names.mapM (member? members)
  | array items =>
    if names.length < items.length then none
    else some ((items.map some) ++ List.replicate (names.length - items.length) none)
  | _ => none

/-- A field that may be missing. -/
def orElse {α : Type} (read : Tree → Option α) (missing : α) : Option Tree → Option α
  | none => some missing
  | some t => read t

def axis? : Tree → Option AxisOrder := named? AxisOrder.name [.xy, .yx]

def coefficients? : Tree → Option CoefficientOrder := named? CoefficientOrder.name [.affine, .gdal]

def mode? : Tree → Option Raster.SearchMode := named? Raster.SearchMode.name [.closest, .noLarger]

def element? : Tree → Option Raster.ElementType :=
  named? Raster.ElementType.name Raster.ElementType.all

def pixel? (type : Raster.ElementType) : Tree → Option (Raster.Pixel type)
  | number n => match type.encoding with
    | .binary f => (n.binary? f).map (Raster.Pixel.ofPattern type)
    | _ => n.integer?.bind type.ofInt?
  | _ => none

def value? (t : Tree) : Option Raster.Value := do
  let (name, content) ← t.tagged?
  let type ← Raster.ElementType.ofName? name
  return ⟨type, ← content.pixel? type⟩

def cell? (t : Tree) : Option CellId := t.word?.map fun n => ⟨UInt64.ofNat n⟩

def cells? (t : Tree) : Option CellSet := do
  match ← t.fields? ["cells"] with
  | [some cells] => return CellSet.ofCells (← (← cells.items?).mapM cell?)
  | _ => none

def rasterConfig? (t : Tree) : Option Raster.Config := do
  match ← t.fields? ["band_rows", "num_threads", "float_nodata_tolerance"] with
  | [bandRows, threads, tolerance] =>
    return ⟨← orElse word? 0 bandRows, ← orElse word? 0 threads,
      ← orElse double? ⟨0⟩ tolerance⟩
  | _ => none

def vectorConfig? (t : Tree) : Option Vector.Config := do
  match ← t.fields? ["chunk_size", "num_threads", "prefetch_chunks"] with
  | [chunkSize, threads, prefetch] =>
    return ⟨← orElse word? 1000 chunkSize, ← orElse word? 0 threads, ← orElse word? 0 prefetch⟩
  | _ => none

end Tree

/-- The text of a row of a table whose records are texts. -/
def rowText (row : Vector.Row String) : String :=
  "\x7b\"record\":" ++ quote row.record ++ ",\"cell\":" ++ toString row.cell.raw.toNat ++ "\x7d"

end HexCover.Json
