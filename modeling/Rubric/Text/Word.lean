import Rubric.Text.Category

/-! Character classes of names and numbers: word characters, decimal digits and the characters
that can be shown as they are. -/

namespace Rubric.Text

/-- A word character of a scope name: a letter, a number of any kind, or the low line. -/
def isWord (c : Char) : Bool :=
  c == '_' || (Category.ofChar c).isLetter || (Category.ofChar c).isNumber

/-- A character that a quoted text shows as it is. Of the separators that is the space alone. -/
def isPrintable (c : Char) : Bool :=
  c == ' ' || !((Category.ofChar c).isOther || (Category.ofChar c).isSeparator)

/-- The value of a decimal digit of any script. Each script's digits stand in a row from zero to
nine, and rows that touch start a new count every ten. -/
def decimalValue? (c : Char) : Option Nat :=
  if c.toNat < 128 then
    if 0x30 ≤ c.toNat && c.toNat ≤ 0x39 then some (c.toNat - 0x30) else none
  else
    match Category.runAt c.toNat with
    | (first, .nd) => some ((c.toNat - first) % 10)
    | _ => none

/-- A digit from `0` to `9`. -/
def isAsciiDigit (c : Char) : Bool :=
  '0' ≤ c && c ≤ '9'

/-- The number that a run of the digits `0` to `9` writes. -/
def digitsValue (ds : List Char) : Nat :=
  ds.foldl (fun n d => 10 * n + (d.toNat - 0x30)) 0

end Rubric.Text
