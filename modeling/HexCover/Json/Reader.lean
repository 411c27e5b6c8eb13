import HexCover.Json.Tree

/-! Reading JSON. Every reader takes what it reads from the front of the input and
gives the rest; the readers of nested values stop after a number of steps that is
computed from the length of the input. -/
namespace HexCover.Json

def isBlank (c : Char) : Bool := c = ' ' || c = '\n' || c = '\t' || c = '\r'

def skipBlanks (cs : List Char) : List Char := cs.dropWhile isBlank

def hexDigit? (c : Char) : Option Nat :=
  if '0' ≤ c ∧ c ≤ '9' then some (c.toNat - '0'.toNat)
  else if 'a' ≤ c ∧ c ≤ 'f' then some (c.toNat - 'a'.toNat + 10)
  else if 'A' ≤ c ∧ c ≤ 'F' then some (c.toNat - 'A'.toNat + 10)
  else none

/-- The code point that the letter of an escape stands for. -/
def escape? (c : Char) : Option Nat :=
  if c = '"' || c = '\\' || c = '/' then some c.toNat
  else if c = 'b' then some 8
  else if c = 'f' then some 12
  else if c = 'n' then some 10
  else if c = 'r' then some 13
  else if c = 't' then some 9
  else none

/-- Read the code points of a string after its opening quote. -/
def readPoints : List Char → Option (List Nat × List Char)
  | [] => none
  | '"' :: rest => some ([], rest)
  | '\\' :: 'u' :: a :: b :: c :: d :: rest => do
    let point := ((← hexDigit? a) * 16 + (← hexDigit? b)) * 256 +
      ((← hexDigit? c) * 16 + (← hexDigit? d))
    let (points, rest) ← readPoints rest
    return (point :: points, rest)
  | '\\' :: c :: rest => do
    let point ← escape? c
    let (points, rest) ← readPoints rest
    return (point :: points, rest)
  | c :: rest => do
    if c.toNat < 32 then none
    let (points, rest) ← readPoints rest
    return (c.toNat :: points, rest)

def readString (cs : List Char) : Option (List Nat × List Char) :=
  (readPoints cs).map fun (points, rest) => (joinHalves points, rest)

def readDigits (cs : List Char) : Option (List Char × List Char) :=
  let digits := cs.takeWhile Char.isDigit
  if digits.isEmpty then none else some (digits, cs.dropWhile Char.isDigit)

/-- Read the digits before the point; a zero stands alone. -/
def readWhole : List Char → Option (List Char × List Char)
  | '0' :: rest => some (['0'], rest)
  | cs => readDigits cs

def readFraction : List Char → Option (List Char × List Char)
  | '.' :: rest => readDigits rest
  | cs => some ([], cs)

def readExponent : List Char → Option (Option (Bool × List Char) × List Char)
  | [] => some (none, [])
  | c :: rest =>
    if c = 'e' || c = 'E' then
      let negative := rest.head? = some '-'
      let digits := if negative || rest.head? = some '+' then rest.tail else rest
      (readDigits digits).map fun (digits, rest) => (some (negative, digits), rest)
    else some (none, c :: rest)

def readNumber (cs : List Char) : Option (NumberText × List Char) := do
  let negative := cs.head? = some '-'
  let (whole, rest) ← readWhole (if negative then cs.tail else cs)
  let (fraction, rest) ← readFraction rest
  let (exponent, rest) ← readExponent rest
  return (⟨negative, whole, fraction, exponent⟩, rest)

def readLeaf : List Char → Option (Tree × List Char)
  | 'n' :: 'u' :: 'l' :: 'l' :: rest => some (.null, rest)
  | 't' :: 'r' :: 'u' :: 'e' :: rest => some (.boolean true, rest)
  | 'f' :: 'a' :: 'l' :: 's' :: 'e' :: rest => some (.boolean false, rest)
  | '"' :: rest => (readString rest).map fun (points, rest) => (.string points, rest)
  | cs => (readNumber cs).map fun (n, rest) => (.number n, rest)

/-- Read the name of a member and the colon after it. -/
def readName (cs : List Char) : Option (List Nat × List Char) :=
  match skipBlanks cs with
  | '"' :: rest => do
    let (name, rest) ← readString rest
    match skipBlanks rest with
    | ':' :: rest => return (name, rest)
    | _ => none
  | _ => none

mutual

def readTree : (steps : Nat) → List Char → Option (Tree × List Char)
  | 0, _ => none
  | steps + 1, cs => match skipBlanks cs with
    | '[' :: rest => match skipBlanks rest with
      | ']' :: rest => some (.array [], rest)
      | rest => (readItems steps rest).map fun (items, rest) => (.array items, rest)
    | '\x7b' :: rest => match skipBlanks rest with
      | '\x7d' :: rest => some (.object [], rest)
      | rest => (readMembers steps rest).map fun (members, rest) => (.object members, rest)
    | rest => readLeaf rest

def readItems : (steps : Nat) → List Char → Option (List Tree × List Char)
  | 0, _ => none
  | steps + 1, cs => do
    let (item, rest) ← readTree steps cs
    match skipBlanks rest with
    | ',' :: rest =>
      let (items, rest) ← readItems steps rest
      return (item :: items, rest)
    | ']' :: rest => return ([item], rest)
    | _ => none

def readMembers : (steps : Nat) → List Char → Option (List (List Nat × Tree) × List Char)
  | 0, _ => none
  | steps + 1, cs => do
    let (name, rest) ← readName cs
    let (value, rest) ← readTree steps rest
    match skipBlanks rest with
    | ',' :: rest =>
      let (members, rest) ← readMembers steps rest
      return ((name, value) :: members, rest)
    | '\x7d' :: rest => return ([(name, value)], rest)
    | _ => none

end

/-- Read a text that is one value. A value and each of its members and items begin
with a character of their own, so twice the length is steps enough. -/
def readText (text : String) : Option Tree :=
  let cs := text.toList
  match readTree (2 * cs.length + 2) cs with
  | some (tree, rest) => if (skipBlanks rest).isEmpty then some tree else none
  | none => none

end HexCover.Json
