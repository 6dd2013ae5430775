import Rubric.Regex.Head
import Rubric.Regex.Matcher

/-! Searching a text with one pattern or with several. What a pattern means is left to an engine,
so that laws can be stated of every engine. They are laws of engines whose searches all come to an
end: one that gives up a search, for the steps or the memory that it takes, is none of these. -/

namespace Rubric.Regex

/-- A pattern made ready. An attempt to match it comes to an end, with a match or without one. -/
structure Matcher where
  /-- the match at a position, in a search that began at `origin` -/
  attempt : (text : Array Char) → (origin position : Nat) → Option Match
  /-- a search tries the position -/
  tries : (text : Array Char) → (position : Nat) → Bool := fun _ _ => true

/-- What makes patterns ready. -/
structure Engine where
  compile : List Char → Except Error Matcher

/-- An expression made ready. -/
def Expression.matcher (r : Expression) : Matcher :=
  let head := r.root.head
  { attempt := r.attempt, tries := head.allows }

/-- The engine of this library. -/
def Engine.standard : Engine where
  compile pattern := (Expression.compile pattern).map Expression.matcher

namespace Matcher

/-- The match at the position itself. -/
def matchAt (m : Matcher) (text : Array Char) (position : Nat) : Option Match :=
  m.attempt text position position

/-- The match that a search finds at a position. -/
def tryAt (m : Matcher) (text : Array Char) (origin position : Nat) : Option Match :=
  if m.tries text position then m.attempt text origin position else none

/-- The first match at one of `tries` positions. -/
def searchFrom (m : Matcher) (text : Array Char) (origin : Nat) :
    (position tries : Nat) → Option Match
  | _, 0 => none
  | position, tries + 1 =>
    match m.tryAt text origin position with
    | some found => some found
    | none => m.searchFrom text origin (position + 1) tries

/-- The leftmost match at or behind a position. -/
def search (m : Matcher) (text : Array Char) (position : Nat) : Option Match :=
  m.searchFrom text position position (text.size + 1 - position)

/-- The first of the matchers with a match at the position, with its index. -/
def firstOf (text : Array Char) (origin position : Nat) :
    (index : Nat) → List Matcher → Option (Nat × Match)
  | _, [] => none
  | index, m :: ms =>
    match m.tryAt text origin position with
    | some found => some (index, found)
    | none => firstOf text origin position (index + 1) ms

/-- The first match of any at one of `tries` positions. -/
def searchAnyFrom (ms : List Matcher) (text : Array Char) (origin : Nat) :
    (position tries : Nat) → Option (Nat × Match)
  | _, 0 => none
  | position, tries + 1 =>
    match firstOf text origin position 0 ms with
    | some found => some found
    | none => searchAnyFrom ms text origin (position + 1) tries

/-- The leftmost match of any at or behind a position, with the lowest index of those that match
there. -/
def searchAny (ms : List Matcher) (text : Array Char) (position : Nat) : Option (Nat × Match) :=
  searchAnyFrom ms text position position (text.size + 1 - position)

end Matcher

end Rubric.Regex
