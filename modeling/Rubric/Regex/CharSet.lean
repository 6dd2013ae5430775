import Rubric.Regex.Property
import Rubric.Text.Case

/-! Sets of characters, as classes in brackets and class escapes describe them. -/

namespace Rubric.Regex

/-- A set of characters. -/
inductive CharSet where
  | empty
  /-- the code points from `first` to `last` -/
  | range (first last : Nat)
  | property (p : Property)
  | union (a b : CharSet)
  | inter (a b : CharSet)
  | compl (a : CharSet)
  /-- the characters that differ from a member in case at most -/
  | anyCase (a : CharSet)
deriving DecidableEq, Repr, Inhabited

namespace CharSet

/-- Membership. -/
def contains : CharSet → Char → Bool
  | empty, _ => false
  | range first last, c => first ≤ c.toNat && c.toNat ≤ last
  | property p, c => p.holds c
  | union a b, c => a.contains c || b.contains c
  | inter a b, c => a.contains c && b.contains c
  | compl a, c => !a.contains c
  | anyCase a, c => a.contains c || (Text.caseVariants c).any a.contains

/-- The set of one code point. -/
def single (n : Nat) : CharSet :=
  range n n

/-- The set of one character. -/
def char (c : Char) : CharSet :=
  single c.toNat

/-- The characters that end a line by themselves. -/
def lineEnds : CharSet :=
  union (range 0x0A 0x0D) (union (single 0x85) (range 0x2028 0x2029))

/-- The members of either set, written without an empty part. -/
def join : CharSet → CharSet → CharSet
  | empty, b => b
  | a, empty => a
  | a, b => union a b

/-- The members of any of the sets. -/
def unions : List CharSet → CharSet
  | [] => empty
  | [a] => a
  | a :: as => union a (unions as)

/-- The members of the first set that are no members of the second. -/
def without (a b : CharSet) : CharSet :=
  inter a (compl b)

/-- The set, or all other characters. -/
def withSense (negated : Bool) (a : CharSet) : CharSet :=
  if negated then compl a else a

/-- The one code point that the set lists, if it is written with one only. -/
def only? : CharSet → Option Nat
  | range first last => if first = last then some first else none
  | union a b =>
    match a.only?, b.only? with
    | some m, some n => if m = n then some m else none
    | _, _ => none
  | _ => none

end CharSet

end Rubric.Regex
