import HexCover.Vector.Convert

/-! An indexer for trying out conversions. It does not look at shapes: the first
byte of a record is the number of its cells, and 255 makes the record invalid. -/
namespace HexCover.Toy

def recordCell (id : UInt64) (resolution i : Nat) : CellId :=
  ⟨UInt64.ofNat (id.toNat * 4096 + resolution * 256 + i)⟩

/-- The indexer that counts cells by the first byte. -/
def indexer : Vector.Indexer where
  convert id bytes resolution compacted :=
    match bytes with
    | [] => .ok []
    | first :: _ =>
      if first = 255 then
        .error (.invalidGeometry id ("toy failure at " ++ toString bytes.length))
      else
        let count := if compacted then min first.toNat 1 else first.toNat
        .ok ((List.range count).map (recordCell id resolution))

end HexCover.Toy
