import Rubric.Text.Blank
import Rubric.Text.Word

/-! Integers as people write them: blanks around, a sign, decimal digits of any script, and single
low lines between digits. -/

namespace Rubric.Text

/-- The blanks that may stand around an integer: all but the information separators. -/
def isIntegerBlank (c : Char) : Bool :=
  isBlank c && !(0x1C ≤ c.toNat && c.toNat ≤ 0x1F)

/-- The values of the digits, which single low lines may separate. `digit` says that a digit has
just been read. -/
def separatedDigits (digit : Bool) : List Char → Option (List Nat)
  | [] => if digit then some [] else none
  | c :: rest =>
    if c = '_' then
      if digit then separatedDigits false rest else none
    else
      match decimalValue? c with
      | some value => (separatedDigits true rest).map (value :: ·)
      | none => none

/-- The sign and the digits of an integer. -/
def integer? (s : List Char) : Option (Bool × List Nat) :=
  let s := ((s.dropWhile isIntegerBlank).reverse.dropWhile isIntegerBlank).reverse
  match s with
  | '-' :: rest => (separatedDigits false rest).map (true, ·)
  | '+' :: rest => (separatedDigits false rest).map (false, ·)
  | s => (separatedDigits false s).map (false, ·)

/-- The number that a sign and digits write. -/
def integerValue (negative : Bool) (digits : List Nat) : Int :=
  let n : Nat := digits.foldl (fun n d => 10 * n + d) 0
  if negative then -n else n

end Rubric.Text
