import HexCover.Wkb.Kind

/-! The normal form of well-known binary. Reading walks the input once, checks
every marker, code and count before it is used, and writes the geometry again in
little-endian order without its empty parts; the members of a multi point lose
their markers and codes. What is written for a geometry is appended to the output
so far, and nothing is appended for an empty one: a point of two values that are
no numbers, a line without coordinates, a polygon without rings, or a multi
geometry or collection without members left. -/
namespace HexCover.Wkb

inductive Fault where
  | truncated (position : Nat)
  | byteOrder (marker : UInt8) (position : Nat)
  | count (n position : Nat)
  | tooDeep
  | multiPointMember (code : Nat)
  | multiLineStringMember (code position : Nat)
  | multiPolygonMember (code position : Nat)
  | unsupported (code position : Nat)
  | trailing (bytes : Nat)
  | unreadable
deriving DecidableEq, Repr

/-- The greatest depth at which a geometry may stand in others. -/
def maxDepth : Nat := 32

/-- Two lowercase hexadecimal digits. -/
def byteText (b : UInt8) : String :=
  String.ofList [(Nat.digitChar (b.toNat / 16)), (Nat.digitChar (b.toNat % 16))]

def Fault.message : Fault → String
  | .truncated position => "truncated at byte " ++ toString position
  | .byteOrder marker position =>
    "invalid byte order marker 0x" ++ byteText marker ++ " at byte " ++ toString position
  | .count n position =>
    "count " ++ toString n ++ " at byte " ++ toString position ++ " exceeds the input"
  | .tooDeep => "geometries nested deeper than " ++ toString maxDepth
  | .multiPointMember code => "multi point member of type " ++ toString code
  | .multiLineStringMember code position =>
    "multi line string member of type " ++ toString code ++ " at byte " ++ toString position
  | .multiPolygonMember code position =>
    "multi polygon member of type " ++ toString code ++ " at byte " ++ toString position
  | .unsupported code position =>
    "unsupported geometry type " ++ toString code ++ " at byte " ++ toString position
  | .trailing bytes => toString bytes ++ " trailing bytes"
  | .unreadable => "unreadable normal form"

structure Cursor where
  position : Nat
  rest : List UInt8
deriving DecidableEq, Repr

/-- A step of the walk: a result and the input after it. -/
abbrev Step (α : Type) := Cursor → Except Fault (α × Cursor)

namespace Cursor

def take (n : Nat) : Step (List UInt8) := fun c =>
  if c.rest.length < n then .error (.truncated c.position)
  else .ok (c.rest.take n, ⟨c.position + n, c.rest.drop n⟩)

def byteOrder : Step ByteOrder := fun c => do
  let (bytes, rest) ← c.take 1
  let marker := bytes.headD 0
  match order? marker with
  | some order => return (order, rest)
  | none => throw (.byteOrder marker c.position)

def word (order : ByteOrder) : Step Nat := fun c => do
  let (bytes, rest) ← c.take 4
  return (order.read bytes, rest)

def double (order : ByteOrder) : Step Double := fun c => do
  let (bytes, rest) ← c.take 8
  return (Double.read order bytes, rest)

/-- Read a count of items that take at least `itemBytes` each. -/
def count (order : ByteOrder) (itemBytes : Nat) : Step Nat := fun c => do
  let (n, rest) ← c.word order
  if rest.rest.length < Size.mulSaturating n itemBytes then throw (.count n c.position)
  return (n, rest)

def coord (order : ByteOrder) : Step (Coord Double) := fun c => do
  let (x, c) ← c.double order
  let (y, c) ← c.double order
  return (⟨x, y⟩, c)

/-- Repeat a step that carries a value along. -/
def times {σ : Type} (step : σ → Step σ) : (n : Nat) → σ → Step σ
  | 0, s => fun c => .ok (s, c)
  | n + 1, s => fun c => do
    let (s, c) ← step s c
    times step n s c

/-- Read a count, of items that take at least `itemBytes` each, and repeat a step as
often; give the count and what the step carried along. -/
def counted {σ : Type} (itemBytes : Nat) (step : σ → Step σ) (start : Nat → σ)
    (order : ByteOrder) : Step (Nat × σ) := fun c => do
  let (n, c) ← c.count order itemBytes
  let (s, c) ← times step n (start n) c
  return ((n, s), c)

def copyCoord (order : ByteOrder) (out : List UInt8) : Step (List UInt8) := fun c => do
  let (p, c) ← c.coord order
  return (out ++ coordBytes .little p, c)

/-- Copy a count and coordinates to the output, and give the count. -/
def copyCoords (order : ByteOrder) (out : List UInt8) : Step (Nat × List UInt8) :=
  counted 16 (copyCoord order) (fun n => out ++ Bytes.ofNat 4 n) order

def copyRing (order : ByteOrder) (out : List UInt8) : Step (List UInt8) := fun c => do
  let ((_, out), c) ← c.copyCoords order out
  return (out, c)

end Cursor

def isEmptyPoint (p : Coord Double) : Bool := p.x.isNaN && p.y.isNaN

/-- Members kept so far: their count and their bytes. -/
structure Kept where
  count : Nat
  bytes : List UInt8

def pointMember (kept : Kept) : Step Kept := fun c => do
  let (order, c) ← c.byteOrder
  let (code, c) ← c.word order
  if code ≠ Kind.point.code then throw (.multiPointMember code)
  let (p, c) ← c.coord order
  if isEmptyPoint p then return (kept, c)
  return (⟨kept.count + 1, kept.bytes ++ coordBytes .little p⟩, c)

/-- Accept a member of a multi geometry or collection by its type. -/
def checkMember (kind member : Kind) (position : Nat) : Except Fault Unit :=
  if kind = .multiLineString ∧ member ≠ .lineString then
    .error (.multiLineStringMember member.code position)
  else if kind = .multiPolygon ∧ member ≠ .polygon then
    .error (.multiPolygonMember member.code position)
  else .ok ()

/-- Read a member of a multi geometry or collection; `inner` reads a geometry. The
type of an empty member is not looked at. -/
def geometryMember (inner : List UInt8 → Step (Option Kind × List UInt8)) (kind : Kind)
    (kept : Kept) : Step Kept := fun c => do
  let ((member?, bytes), rest) ← inner kept.bytes c
  match member? with
  | none => return (⟨kept.count, bytes⟩, rest)
  | some member =>
    checkMember kind member c.position
    return (⟨kept.count + 1, bytes⟩, rest)

def Kept.body? (kept : Kept) : Option (List UInt8) :=
  if kept.count = 0 then none else some (Bytes.ofNat 4 kept.count ++ kept.bytes)

/-- Read counted members and give the ones that are kept, if any are left. -/
def countedMembers (itemBytes : Nat) (member : Kept → Step Kept) (order : ByteOrder) :
    Step (Option (List UInt8)) := fun c => do
  let ((_, kept), c) ← Cursor.counted itemBytes member (fun _ => ⟨0, []⟩) order c
  return (kept.body?, c)

/-- Read the body of a geometry and give its normal form, unless it is empty;
`inner` reads the geometries in it. -/
def body? (inner : List UInt8 → Step (Option Kind × List UInt8)) (kind : Kind)
    (order : ByteOrder) : Step (Option (List UInt8)) := fun c => do
  match kind with
  | .point =>
    let (p, c) ← c.coord order
    return (if isEmptyPoint p then none else some (coordBytes .little p), c)
  | .lineString =>
    let ((n, bytes), c) ← c.copyCoords order []
    return (if n = 0 then none else some bytes, c)
  | .polygon =>
    let ((n, bytes), c) ← Cursor.counted 4 (Cursor.copyRing order) (Bytes.ofNat 4) order c
    return (if n = 0 then none else some bytes, c)
  | .multiPoint => countedMembers 21 pointMember order c
  | .multiLineString | .multiPolygon | .collection =>
    countedMembers 9 (geometryMember inner kind) order c

/-- Read a geometry that may be nested `levels` deep, itself counted, and append
its normal form to the output; give its type unless it is empty. -/
def walk : (levels : Nat) → (out : List UInt8) → Step (Option Kind × List UInt8)
  | 0, _ => fun _ => .error .tooDeep
  | levels + 1, out => fun c => do
    let (order, start) ← c.byteOrder
    let (code, c) ← start.word order
    match Kind.ofCode? code with
    | none => throw (.unsupported code start.position)
    | some kind =>
      let (bytes?, c) ← body? (walk levels) kind order c
      match bytes? with
      | none => return ((none, out), c)
      | some bytes => return ((some kind, out ++ header .little kind ++ bytes), c)

/-- The normal form of bytes, or `none` for an empty geometry. -/
def normalize (bytes : List UInt8) : Except Fault (Option (List UInt8)) := do
  let ((kind?, out), c) ← walk (maxDepth + 1) [] ⟨0, bytes⟩
  if c.rest.length ≠ 0 then throw (.trailing c.rest.length)
  return kind?.map fun _ => out

end HexCover.Wkb
