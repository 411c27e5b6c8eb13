import HexCover.Double
import HexCover.Geometry

/-! Well-known binary. A geometry is written as a byte-order marker, a type code
and a body; counts and codes take four bytes and coordinates sixteen. Members of a
multi geometry and of a collection are geometries of their own, each with its
marker and code. -/
namespace HexCover.Wkb

inductive Kind where
  | point
  | lineString
  | polygon
  | multiPoint
  | multiLineString
  | multiPolygon
  | collection
deriving DecidableEq, Repr

def Kind.code : Kind → Nat
  | .point => 1
  | .lineString => 2
  | .polygon => 3
  | .multiPoint => 4
  | .multiLineString => 5
  | .multiPolygon => 6
  | .collection => 7

def Kind.ofCode? : Nat → Option Kind
  | 1 => some .point
  | 2 => some .lineString
  | 3 => some .polygon
  | 4 => some .multiPoint
  | 5 => some .multiLineString
  | 6 => some .multiPolygon
  | 7 => some .collection
  | _ => none

def orderMarker : ByteOrder → UInt8
  | .big => 0
  | .little => 1

def order? (marker : UInt8) : Option ByteOrder :=
  if marker = 0 then some .big else if marker = 1 then some .little else none

def header (order : ByteOrder) (kind : Kind) : List UInt8 :=
  orderMarker order :: order.write 4 kind.code

def coordBytes (order : ByteOrder) (p : Coord Double) : List UInt8 :=
  p.x.write order ++ p.y.write order

def coordsBytes (order : ByteOrder) (ps : List (Coord Double)) : List UInt8 :=
  order.write 4 ps.length ++ ps.flatMap (coordBytes order)

def ringsBytes (order : ByteOrder) (rings : List (List (Coord Double))) : List UInt8 :=
  order.write 4 rings.length ++ rings.flatMap (coordsBytes order)

mutual

def encode (order : ByteOrder) : Geometry Double → List UInt8
  | .point p => header order .point ++ coordBytes order p
  | .lineString line => header order .lineString ++ coordsBytes order line
  | .polygon p => header order .polygon ++ ringsBytes order p.rings
  | .multiPoint ps => header order .multiPoint ++ order.write 4 ps.length ++
      ps.flatMap fun p => header order .point ++ coordBytes order p
  | .multiLineString lines => header order .multiLineString ++ order.write 4 lines.length ++
      lines.flatMap fun line => header order .lineString ++ coordsBytes order line
  | .multiPolygon ps => header order .multiPolygon ++ order.write 4 ps.length ++
      ps.flatMap fun p => header order .polygon ++ ringsBytes order p.rings
  | .collection members =>
      header order .collection ++ order.write 4 members.length ++ encodeMembers order members

def encodeMembers (order : ByteOrder) : List (Geometry Double) → List UInt8
  | [] => []
  | g :: gs => encode order g ++ encodeMembers order gs

end

end HexCover.Wkb
