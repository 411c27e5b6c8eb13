import HexCover.Wkb.Normalize

/-! The walk in place. The input is one buffer, read by index; the output is another one,
which is appended to, overwritten where a count is not known before its members, and
cut back where a geometry turns out to be empty. Every index is checked against its
buffer, every difference of indices against zero, and every call against the room left
on a stack, so that what must not happen is told from what is wrong with the input.

The walk is written for any monad that has the buffers. An action carries them along; a
recorded walk also keeps every edit of the output, and leaves all of it when it stops. -/
namespace HexCover.Wkb

/-- What the walk in place must not do. -/
inductive Breach where
  | subtraction
  | slice
  | patch
  | stack
deriving DecidableEq, Repr

/-- Why the walk in place stops. -/
inductive Stop where
  | fault (fault : Fault)
  | breach (breach : Breach)
deriving DecidableEq, Repr

/-- How far the input has been read, and the output so far. -/
structure Buffers where
  position : Nat
  out : List UInt8
deriving DecidableEq, Repr

/-- An edit of the output; to patch is to overwrite four bytes with a count. -/
inductive Edit where
  | append (bytes : List UInt8)
  | patch (start count : Nat)
  | truncate (length : Nat)
deriving DecidableEq, Repr

def Edit.apply : Edit → List UInt8 → List UInt8
  | append bytes, out => out ++ bytes
  | patch start count, out => out.take start ++ Bytes.ofNat 4 count ++ out.drop (start + 4)
  | truncate length, out => out.take length

/-- Runs that look at the buffers, go on in the input, and edit the output. -/
class InPlace (m : Type → Type) where
  look : m Buffers
  advance : Nat → m Unit
  edit : Edit → m Unit

namespace InPlace

variable {m : Type → Type} [Monad m] [MonadExceptOf Stop m] [InPlace m]

/-- Overwrite four bytes of the output, if they are there. -/
def patch (start count : Nat) : m Unit := do
  let b ← look
  if start + 4 ≤ b.out.length then edit (.patch start count)
  else throw (.breach .patch)

def times {σ : Type} (run : σ → m σ) : (n : Nat) → σ → m σ
  | 0, s => return s
  | n + 1, s => do
    let s ← run s
    times run n s

variable (input : List UInt8)

def remaining : m Nat := do
  let b ← look
  if input.length < b.position then throw (.breach .subtraction)
  else return input.length - b.position

def slice (start stop : Nat) : m (List UInt8) :=
  if start ≤ stop ∧ stop ≤ input.length then return (input.drop start).take (stop - start)
  else throw (.breach .slice)

/-- Read bytes; the position is the same as before if there are too few. -/
def take (n : Nat) : m (List UInt8) := do
  let b ← look
  let left ← remaining input
  if left < n then throw (.fault (.truncated b.position))
  else
    let bytes ← slice input b.position (b.position + n)
    advance n
    return bytes

def byteOrder : m ByteOrder := do
  let b ← look
  let bytes ← take input 1
  let marker := bytes.headD 0
  match order? marker with
  | some order => return order
  | none => throw (.fault (.byteOrder marker b.position))

def word (order : ByteOrder) : m Nat := do
  let bytes ← take input 4
  return order.read bytes

def double (order : ByteOrder) : m Double := do
  let bytes ← take input 8
  return Double.read order bytes

def count (order : ByteOrder) (itemBytes : Nat) : m Nat := do
  let b ← look
  let n ← word input order
  let left ← remaining input
  if left < Size.mulSaturating n itemBytes then throw (.fault (.count n b.position))
  else return n

def coord (order : ByteOrder) : m (Coord Double) := do
  let x ← double input order
  let y ← double input order
  return ⟨x, y⟩

/-- Read a count, write bytes in its place and repeat a run as often; give the count and
what the run carried along. -/
def counted {σ : Type} (itemBytes : Nat) (run : σ → m σ) (start : σ)
    (place : Nat → List UInt8) (order : ByteOrder) : m (Nat × σ) := do
  let n ← count input order itemBytes
  edit (.append (place n))
  let s ← times run n start
  return (n, s)

def copyCoord (order : ByteOrder) (_ : Unit) : m Unit := do
  let p ← coord input order
  edit (.append (coordBytes .little p))

def copyCoords (order : ByteOrder) : m (Nat × Unit) :=
  counted input 16 (copyCoord input order) () (Bytes.ofNat 4) order

def copyRing (order : ByteOrder) (_ : Unit) : m Unit := do
  let _ ← copyCoords input order

/-- Read a member of a multi point, and count it unless it is empty. -/
def pointMember (kept : Nat) : m Nat := do
  let order ← byteOrder input
  let code ← word input order
  if code ≠ Kind.point.code then throw (.fault (.multiPointMember code))
  else
    let p ← coord input order
    if isEmptyPoint p then return kept
    else
      edit (.append (coordBytes .little p))
      return kept + 1

/-- Read a member of a multi geometry or collection, and count it unless it is empty;
`inner` reads a geometry. -/
def geometryMember (inner : m (Option Kind)) (kind : Kind) (kept : Nat) : m Nat := do
  let b ← look
  let member? ← inner
  match member? with
  | none => return kept
  | some member =>
    match checkMember kind member b.position with
    | .error fault => throw (.fault fault)
    | .ok () => return kept + 1

/-- Read counted members; their number is filled in when all of them are read. -/
def countedMembers (itemBytes : Nat) (member : Nat → m Nat) (order : ByteOrder) : m Bool := do
  let b ← look
  let (_, kept) ← counted input itemBytes member 0 (fun _ => Bytes.ofNat 4 0) order
  patch b.out.length kept
  return decide (0 < kept)

/-- Read the body of a geometry, and tell whether anything is in it; `inner` reads the
geometries in it. -/
def body (inner : m (Option Kind)) (kind : Kind) (order : ByteOrder) : m Bool := do
  match kind with
  | .point =>
    let p ← coord input order
    edit (.append (coordBytes .little p))
    return !isEmptyPoint p
  | .lineString =>
    let (n, _) ← copyCoords input order
    return decide (0 < n)
  | .polygon =>
    let (n, _) ← counted input 4 (copyRing input order) () (Bytes.ofNat 4) order
    return decide (0 < n)
  | .multiPoint => countedMembers input 21 (pointMember input) order
  | .multiLineString | .multiPolygon | .collection =>
    countedMembers input 9 (geometryMember inner kind) order

/-- Read a geometry at a depth, with room for `stack` calls; give its type unless it is
empty. -/
def geometry : (stack : Nat) → (depth : Nat) → m (Option Kind)
  | 0, _ => throw (.breach .stack)
  | stack + 1, depth =>
    if maxDepth < depth then throw (.fault .tooDeep)
    else do
      let start ← look
      let order ← byteOrder input
      let b ← look
      let code ← word input order
      edit (.append [orderMarker .little])
      edit (.append (Bytes.ofNat 4 code))
      match Kind.ofCode? code with
      | none => throw (.fault (.unsupported code b.position))
      | some kind =>
        let written ← body input (geometry stack (depth + 1)) kind order
        if written then return some kind
        else
          edit (.truncate start.out.length)
          return none

def normalize (stack : Nat) : m (Option (List UInt8)) := do
  let kind? ← geometry input stack 0
  let b ← look
  if b.position ≠ input.length then
    let left ← remaining input
    throw (.fault (.trailing left))
  else return kind?.map fun _ => b.out

end InPlace

/-- A run that carries the buffers along, until it stops. -/
abbrev Action := StateT Buffers (Except Stop)

instance : InPlace Action where
  look := get
  advance n := modify fun b => { b with position := b.position + n }
  edit e := modify fun b => { b with out := e.apply b.out }

namespace Buffers

variable (input : List UInt8)

def geometry (stack depth : Nat) : Action (Option Kind) := InPlace.geometry input stack depth

def normalize (stack : Nat) : Except Stop (Option (List UInt8)) :=
  StateT.run' (InPlace.normalize input stack : Action (Option (List UInt8))) ⟨0, []⟩

end Buffers

/-- The buffers and the edits of the output so far. -/
structure Tape extends Buffers where
  edits : List Edit
deriving DecidableEq, Repr

/-- A run that gives a value or stops, and leaves a tape in either case. -/
abbrev Walk := EStateM Stop Tape

namespace Tape

/-- The tape before anything is read. -/
def blank : Tape := ⟨⟨0, []⟩, []⟩

/-- The tape after an edit of its output. -/
def edited (t : Tape) (e : Edit) : Tape :=
  { t with out := e.apply t.out, edits := t.edits ++ [e] }

instance : InPlace Walk where
  look := return (← get).toBuffers
  advance n := modify fun t => { t with position := t.position + n }
  edit e := modify fun t => t.edited e

variable (input : List UInt8)

/-- Read a geometry that may be nested `levels` deep, itself counted. -/
def geometry (levels : Nat) : Walk (Option Kind) :=
  InPlace.geometry input (levels + 1) (maxDepth + 1 - levels)

def normalize : Walk (Option (List UInt8)) := InPlace.normalize input (maxDepth + 2)

end Tape

end HexCover.Wkb
