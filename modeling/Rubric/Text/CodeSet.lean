/-! Sets of code points, given by the places where membership changes. Large sets are written as
text: the differences between these places, in decimal, with a blank between two. -/

namespace Rubric.Text

/-- A set of code points. In `bounds`, which ascends, the members begin at every entry with an even
index and end in front of the entry behind it. -/
structure CodeSet where
  bounds : Array Nat
deriving DecidableEq, Repr, Inhabited

namespace CodeSet

/-- How many bounds lie at or before `n`, when all in front of `low` do and none from `high` on
does. -/
def rank (s : CodeSet) (n : Nat) : (fuel low high : Nat) → Nat
  | 0, low, _ => low
  | fuel + 1, low, high =>
    if high ≤ low then low
    else
      let mid := (low + high) / 2
      if s.bounds.getD mid 0 ≤ n then s.rank n fuel (mid + 1) high else s.rank n fuel low mid

/-- Membership. The number of bounds at or before a member is odd. -/
def contains (s : CodeSet) (n : Nat) : Bool :=
  s.rank n s.bounds.size 0 s.bounds.size % 2 == 1

/-- Reads differences into bounds, of which the last is `bound`. Of the difference that is being
read the digits so far make `value`. -/
def readBounds (bound value : Nat) (acc : Array Nat) : List Char → Array Nat
  | [] => acc.push (bound + value)
  | ' ' :: rest => readBounds (bound + value) 0 (acc.push (bound + value)) rest
  | c :: rest => readBounds bound (10 * value + (c.toNat - '0'.toNat)) acc rest

/-- The set that some lines of differences describe. -/
def ofLines (lines : List String) : CodeSet :=
  ⟨readBounds 0 0 #[] (" ".intercalate lines).toList⟩

/-- The set of the code points from the first to the last of each pair, which ascend. -/
def ofRanges (ranges : List (Nat × Nat)) : CodeSet :=
  ⟨(ranges.flatMap fun (first, last) => [first, last + 1]).toArray⟩

end CodeSet

end Rubric.Text
