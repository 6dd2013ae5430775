import Rubric.Regex.CharSet

/-! Regular expressions as trees. -/

namespace Rubric.Regex

/-- A place in the text that an assertion asks for. -/
inductive Anchor where
  | lineStart
  | lineEnd
  | textStart
  | textEnd
  /-- the end of the text, or the newline that ends it -/
  | lastLineEnd
  /-- where the search began -/
  | searchStart
  | wordBoundary
  | noWordBoundary
deriving DecidableEq, Repr

/-- How many characters an expression can consume: at least, and at most if there is a limit. -/
structure Extent where
  least : Nat
  most : Option Nat
deriving DecidableEq, Repr

/-- A regular expression. Groups are numbered from 1. -/
inductive Node where
  | empty
  /-- one character of the set -/
  | one (set : CharSet)
  /-- a text without regard to case, in parts. A part of several letters is a spelling; a letter
  that is spelled so may stand in its place -/
  | folded (parts : List (List Nat))
  /-- carriage return and newline as one, or a single character that ends a line -/
  | lineBreak
  | anchor (a : Anchor)
  /-- what is matched so far is left out of the result -/
  | keep
  | seq (a b : Node)
  /-- the first alternative is preferred -/
  | alt (a b : Node)
  | group (index : Nat) (body : Node)
  /-- a part with options of its own, which stays apart from its neighbours -/
  | enclosed (body : Node)
  /-- the body with its first way to match only -/
  | atomic (body : Node)
  | lookAhead (negative : Bool) (body : Node)
  /-- the extent says how far in front of the place the body can begin -/
  | lookBehind (negative : Bool) (extent : Extent) (body : Node)
  /-- at least `min` and at most `max` times, as often as possible unless `lazy`. Groups in
  `watched` can make a further iteration worth its while when one consumed nothing -/
  | loop (min : Nat) (max : Option Nat) (lazy : Bool) (watched : List Nat) (body : Node)
  /-- the text of the last of the groups that took part and whose text stands here -/
  | backref (groups : List Nat) (ignoreCase : Bool)
  /-- the group of that number once more, 0 for the whole expression -/
  | call (index : Nat)
deriving DecidableEq, Repr, Inhabited

namespace Node

/-- Changes every part of an expression, the inner ones before the outer. -/
def transform (f : Node → Node) : Node → Node
  | seq a b => f (seq (a.transform f) (b.transform f))
  | alt a b => f (alt (a.transform f) (b.transform f))
  | Node.group index body => f (Node.group index (body.transform f))
  | enclosed body => f (enclosed (body.transform f))
  | atomic body => f (atomic (body.transform f))
  | lookAhead negative body => f (lookAhead negative (body.transform f))
  | lookBehind negative extent body => f (lookBehind negative extent (body.transform f))
  | loop min max lazy watched body => f (loop min max lazy watched (body.transform f))
  | node => f node

/-- The parts of an expression in their order, itself first, in front of further parts. The inside
of a part counts only where `enter` says so. -/
def parts (enter : Node → Bool) : Node → List Node → List Node
  | seq a b, more =>
    seq a b :: if enter (seq a b) then a.parts enter (b.parts enter more) else more
  | alt a b, more =>
    alt a b :: if enter (alt a b) then a.parts enter (b.parts enter more) else more
  | Node.group index body, more =>
    Node.group index body ::
      if enter (Node.group index body) then body.parts enter more else more
  | enclosed body, more =>
    enclosed body :: if enter (enclosed body) then body.parts enter more else more
  | atomic body, more => atomic body :: if enter (atomic body) then body.parts enter more else more
  | lookAhead negative body, more =>
    lookAhead negative body ::
      if enter (lookAhead negative body) then body.parts enter more else more
  | lookBehind negative extent body, more =>
    lookBehind negative extent body ::
      if enter (lookBehind negative extent body) then body.parts enter more else more
  | loop min max lazy watched body, more =>
    loop min max lazy watched body ::
      if enter (loop min max lazy watched body) then body.parts enter more else more
  | node, more => node :: more

/-- All parts of an expression. -/
def allParts (node : Node) : List Node :=
  node.parts (fun _ => true) []

/-- Some group captures in the expression. -/
def captures (node : Node) : Bool :=
  node.allParts.any fun
    | Node.group _ _ => true
    | _ => false

end Node

end Rubric.Regex
