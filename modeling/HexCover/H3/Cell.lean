import HexCover.Arithmetic
import HexCover.CellSet

/-! Cells of the H3 hierarchy as paths. A cell is one of 122 base cells followed
by one digit per resolution step, each naming a child: 0 the central one, 1 to 6
the ones around it. Twelve base cells are pentagons. They lack the child in
direction 1 of every central descendant, so there the first digit that leaves the
centre is not 1. The identifier packs the path into 64 bits, and reading accepts
exactly the packed paths. -/
namespace HexCover.H3

/-- One of the cells of resolution 0. -/
abbrev BaseCell := Fin 122

/-- The place of a child in its parent. -/
abbrev Digit := Fin 7

instance baseCell_neZero : @NeZero Nat Zero.ofOfNat0 122 := ⟨by decide⟩

instance digit_neZero : @NeZero Nat Zero.ofOfNat0 7 := ⟨by decide⟩

instance baseCell_lawfulBEq : LawfulBEq BaseCell := inferInstance

/-- The base cells with five neighbours. -/
def pentagons : List BaseCell := [4, 14, 24, 38, 49, 58, 63, 72, 83, 97, 107, 117]

/-- The first digit that leaves the centre, or 0 if none does. -/
def leading (digits : List Digit) : Digit := (digits.find? (· ≠ 0)).getD 0

def IsPath (base : BaseCell) (digits : List Digit) : Prop :=
  digits.length ≤ 15 ∧ (base ∈ pentagons → leading digits ≠ 1)

instance (base : BaseCell) (digits : List Digit) : Decidable (IsPath base digits) :=
  inferInstanceAs (Decidable (_ ∧ _))

structure Cell where
  base : BaseCell
  digits : List Digit
  isPath : IsPath base digits
deriving DecidableEq

theorem leading_take (digits : List Digit) (n : Nat) :
    leading (digits.take n) = leading digits ∨ leading (digits.take n) = 0 := by
  have split : digits.find? (· ≠ 0) =
      ((digits.take n).find? (· ≠ 0)).or ((digits.drop n).find? (· ≠ 0)) := by
    rw [← List.find?_append, List.take_append_drop]
  cases found : (digits.take n).find? (· ≠ 0) with
  | none => right; simp only [leading, found, Option.getD_none]
  | some d => left; simp only [leading, split, found, Option.some_or, Option.getD_some]

theorem IsPath.take {base : BaseCell} {digits : List Digit} (h : IsPath base digits) (n : Nat) :
    IsPath base (digits.take n) := by
  refine ⟨Nat.le_trans (List.length_take_le' n digits) h.1, fun pentagon => ?_⟩
  rcases leading_take digits n with same | zero
  · rw [same]; exact h.2 pentagon
  · rw [zero]; decide

namespace Cell

def resolution (c : Cell) : Nat := c.digits.length

def isPentagon (c : Cell) : Bool := c.base ∈ pentagons && c.digits.all (· = 0)

def ofPath? (base : BaseCell) (digits : List Digit) : Option Cell :=
  if h : IsPath base digits then some ⟨base, digits, h⟩ else none

/-- The ancestor with the first `n` digits. -/
def ancestor (c : Cell) (n : Nat) : Cell := ⟨c.base, c.digits.take n, c.isPath.take n⟩

/-- The cell one step coarser; a base cell is its own parent. -/
def parent (c : Cell) : Cell := c.ancestor (c.resolution - 1)

/-- The cells one step finer, by ascending digit: seven, or six in a pentagon,
and none below the finest resolution. -/
def children (c : Cell) : List Cell :=
  (List.finRange 7).filterMap fun d => ofPath? c.base (c.digits ++ [d])

/-- The descendants `steps` resolutions finer, in ascending order. -/
def descendants (c : Cell) : (steps : Nat) → List Cell
  | 0 => [c]
  | steps + 1 => (c.descendants steps).flatMap children

/-- The identifier's digits: those of the path, then 7 in every unused place. -/
def paddedDigits (c : Cell) : List Nat :=
  c.digits.map Fin.val ++ List.replicate (15 - c.resolution) 7

/-- The 64-bit word of a cell: mode 1, the resolution, the base cell, and fifteen
octal digits. -/
def word (c : Cell) : Nat :=
  2 ^ 59 + c.resolution * 2 ^ 52 + c.base.val * 2 ^ 45 +
    c.paddedDigits.foldl (fun n d => 8 * n + d) 0

def id (c : Cell) : CellId := ⟨UInt64.ofNat c.word⟩

end Cell

/-- The `count` lowest octal digits of a number, highest first. -/
def octalDigits : (count : Nat) → Nat → List Nat
  | 0, _ => []
  | count + 1, n => octalDigits count (n / 8) ++ [n % 8]

def digit? (n : Nat) : Option Digit := if h : n < 7 then some ⟨n, h⟩ else none

def Cell.ofId? (id : CellId) : Option Cell :=
  let n := id.raw.toNat
  let resolution := n / 2 ^ 52 % 16
  let digits := octalDigits 15 n
  if n / 2 ^ 56 = 8 ∧ (digits.drop resolution).all (· = 7) then
    if h : n / 2 ^ 45 % 128 < 122 then
      ((digits.take resolution).mapM digit?).bind (Cell.ofPath? ⟨n / 2 ^ 45 % 128, h⟩)
    else none
  else none

/-- The cell of an identifier, or the failure that names it. -/
def Cell.ofId (id : CellId) : Except ConversionError Cell :=
  match Cell.ofId? id with
  | some c => .ok c
  | none => .error (.invalidCell id.raw)

/-- The cells of a set, in ascending order of their identifiers. -/
def cellsOf (s : CellSet) : Except ConversionError (List Cell) := s.toList.mapM Cell.ofId

def resolutionOf (id : CellId) : Except ConversionError Nat :=
  (Cell.ofId id).map Cell.resolution

end HexCover.H3
