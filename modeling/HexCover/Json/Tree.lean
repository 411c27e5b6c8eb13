/-! JSON values as they are written. A number keeps its digits, an object its members
in order and with repetitions, and a string its code points, which may be lone
surrogates if escapes say so; only a string without any is a text. -/
namespace HexCover.Json

/-- A number: its sign, the digits before and after the point, and the sign and the
digits of the exponent. A number without a point has no digits after it. -/
structure NumberText where
  negative : Bool
  whole : List Char
  fraction : List Char
  exponent : Option (Bool × List Char)
deriving DecidableEq, Repr

inductive Tree where
  | null
  | boolean (b : Bool)
  | number (n : NumberText)
  | string (points : List Nat)
  | array (items : List Tree)
  | object (members : List (List Nat × Tree))

/-- Whether a code point is the first half of a pair. -/
def isLead (point : Nat) : Bool := 0xd800 ≤ point && point < 0xdc00

def isTrail (point : Nat) : Bool := 0xdc00 ≤ point && point < 0xe000

/-- Replace each pair of halves by the code point that it stands for. -/
def joinHalves : List Nat → List Nat
  | lead :: trail :: points =>
    if isLead lead && isTrail trail then
      (0x10000 + (lead - 0xd800) * 0x400 + (trail - 0xdc00)) :: joinHalves points
    else lead :: joinHalves (trail :: points)
  | points => points

/-- The text of code points, if no half of a pair stands alone. -/
def textOf? (points : List Nat) : Option String :=
  if points.any fun point => isLead point || isTrail point then none
  else some (String.ofList (points.map Char.ofNat))

def quoteChar (c : Char) : List Char :=
  if c = '"' then ['\\', '"']
  else if c = '\\' then ['\\', '\\']
  else if c = '\n' then ['\\', 'n']
  else if c = '\r' then ['\\', 'r']
  else if c = '\t' then ['\\', 't']
  else if c.toNat = 8 then ['\\', 'b']
  else if c.toNat = 12 then ['\\', 'f']
  else if c.toNat < 32 then
    ['\\', 'u', '0', '0', Nat.digitChar (c.toNat / 16), Nat.digitChar (c.toNat % 16)]
  else [c]

/-- Write a text as a string. Quotes, backslashes and control characters are
escaped. -/
def quote (text : String) : String :=
  String.ofList ('"' :: text.toList.flatMap quoteChar ++ ['"'])

end HexCover.Json
