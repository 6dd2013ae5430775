import Rubric.Number.Binary

/-! The decimal text of a binary64 number: the fewest digits that read back as the number, and of
those the nearest. Numbers from 10^-4 up to 10^16 are written positionally and keep a point; the
others have one digit before the point and a signed exponent of at least two digits. -/

namespace Rubric.Number

/-- The order of a · 10^i and m · 2^q, compared exactly. -/
def compareScaled (a : Nat) (i : Int) (m : Nat) (q : Int) : Ordering :=
  compare (a * power 10 i * power 2 (-q)) (m * power 2 q * power 10 (-i))

namespace Binary

/-- The decimal a · 10^i lies among the reals that round to the value; the ends of that interval
belong to it when the mantissa is even. -/
def readsBack (x : Binary) (a : Nat) (i : Int) : Bool :=
  let low := if x.narrowBelow then 4 * x.mantissa - 1 else 4 * x.mantissa - 2
  let even := x.mantissa % 2 == 0
  let above := compareScaled a i low (x.exponent - 2)
  let below := compareScaled a i (4 * x.mantissa + 2) (x.exponent - 2)
  (above == .gt || (even && above == .eq)) && (below == .lt || (even && below == .eq))

/-- Raises `k` until the value lies below 10^k. -/
def raiseScale (x : Binary) : (fuel : Nat) → Int → Int
  | 0, k => k
  | fuel + 1, k =>
    if compareScaled 1 k x.mantissa x.exponent == .gt then k else raiseScale x fuel (k + 1)

/-- The least `k` with the value below 10^k, for a value that is not zero. The search starts at a
bound from the binary logarithm that is at most three too low. -/
def scale (x : Binary) : Int :=
  raiseScale x 5 (((Nat.log2 x.mantissa : Int) + x.exponent) * 30103 / 100000 - 1)

/-- The decimal with `n` digits nearest to the value, if one of the two next to it reads back. -/
def digitsAt (x : Binary) (k : Int) (n : Nat) : Option (Nat × Int) :=
  let i := k - n
  let num := x.mantissa * power 2 x.exponent * power 10 (-i)
  let den := power 2 (-x.exponent) * power 10 i
  let a := num / den
  match x.readsBack a i, x.readsBack (a + 1) i with
  | true, false => some (a, i)
  | false, true => some (a + 1, i)
  | false, false => none
  | true, true =>
    match compare (2 * num) ((2 * a + 1) * den) with
    | .lt => some (a, i)
    | .gt => some (a + 1, i)
    | .eq => some (if a % 2 = 0 then a else a + 1, i)

/-- Digits and power of ten of the shortest decimal that reads back; seventeen digits are always
enough. -/
def shortest (x : Binary) : Nat × Int :=
  let k := x.scale
  ((List.range 17).findSome? fun n => x.digitsAt k (n + 1)).getD (0, 0)

/-- The decimal a · 10^i without the zeros at its end. -/
def dropZeros : (fuel a : Nat) → (i : Int) → Nat × Int
  | 0, a, i => (a, i)
  | fuel + 1, a, i => if a % 10 = 0 then dropZeros fuel (a / 10) (i + 1) else (a, i)

/-- The exponent of a number in scientific form. -/
def exponentText (e : Int) : String :=
  let digits := toString e.natAbs
  (if e < 0 then "e-" else "e+") ++ (if digits.length < 2 then "0" else "") ++ digits

/-- The digits `ds` with `e` as the power of ten of the first. -/
def layOut (ds : List Char) (e : Int) : String :=
  if -4 ≤ e && e < 16 then
    if e < 0 then "0." ++ String.ofList (List.replicate (e.natAbs - 1) '0' ++ ds)
    else
      let whole := e.toNat + 1
      let padded := ds ++ List.replicate (whole - ds.length) '0'
      let fraction := padded.drop whole
      String.ofList (padded.take whole) ++ "." ++
        (if fraction.isEmpty then "0" else String.ofList fraction)
  else
    match ds with
    | [] => ""
    | d :: rest =>
      String.ofList (if rest.isEmpty then [d] else d :: '.' :: rest) ++ exponentText e

/-- The text of a finite number; of an infinite one and of no number, the words given. -/
def textWith (infinite none : String) (x : Binary) : String :=
  if x.isNaN then none
  else
    (if x.isNegative then "-" else "") ++
      (if !x.isFinite then infinite
      else if x.mantissa = 0 then "0.0"
      else
        let (a, i) := x.shortest
        let (a, i) := dropZeros 20 a i
        let ds := Nat.toDigits 10 a
        layOut ds (i + ds.length - 1))

end Binary

end Rubric.Number
