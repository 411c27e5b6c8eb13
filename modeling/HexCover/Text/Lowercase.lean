import HexCover.Text.CaseRuns

/-! Small letters of a text. Each capital becomes its small letter; the dotted
capital I becomes an i with a combining dot, and a capital sigma that ends a word
takes its final form. A sigma ends a word when a character with case comes before
it and none after it, not counting characters that are passed over. -/
namespace HexCover.Lowercase

/-- Whether a code point lies in one of the runs. -/
def inRuns (runs : List (Nat × Nat)) (c : Char) : Bool :=
  runs.any fun (first, last) => first ≤ c.toNat && c.toNat ≤ last

/-- The small letter of a character, or the character itself. -/
def ofChar (c : Char) : Char :=
  if c.toNat < 128 then c.toLower
  else
    let holds := fun ((first, last, step, _) : Nat × Nat × Nat × Int) =>
      first ≤ c.toNat && c.toNat ≤ last && (c.toNat - first) % step == 0
    match CaseRuns.capitals.find? holds with
    | some (_, _, _, shift) => Char.ofNat (c.toNat + shift).toNat
    | none => c

/-- Whether the first character that is not passed over has case. -/
def startsCased (cs : List Char) : Bool :=
  match cs.dropWhile (inRuns CaseRuns.ignorable) with
  | [] => false
  | c :: _ => inRuns CaseRuns.cased c

/-- Lower the characters of a text; `before` holds those already read, last first. -/
def lower (before : List Char) : List Char → List Char
  | [] => []
  | c :: cs =>
    let small :=
      if c = 'İ' then ['i', '\u0307']
      else if c = 'Σ' then
        [if startsCased before && !startsCased cs then 'ς' else 'σ']
      else [ofChar c]
    small ++ lower (c :: before) cs

end HexCover.Lowercase

def HexCover.lowercase (text : String) : String :=
  String.ofList (Lowercase.lower [] text.toList)
